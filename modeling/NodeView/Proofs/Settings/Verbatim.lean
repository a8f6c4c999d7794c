import NodeView.Node
import NodeView.Proofs.Layer.Literal
import NodeView.Proofs.Settings.Layering
/-!
# NodeView.Proofs.Settings.Verbatim

Settings that the environment gives a text.

What stands for a setting is what the last variable that reaches it gives, laid over the rest
(`exists_standing_of_last`), and nothing that it is laid over makes it another text. So a text for
one of the two settings that take any text is taken verbatim, unless the environment reads it as a
literal (`text_verbatim`).
-/

namespace NodeView.Settings

/-- The value of a setting that takes any text. -/
def text? (settings : Settings) : Setting → Option String
  | .nodeId => some settings.nodeId
  | .logLevel => some settings.logLevel
  | _ => none

/-- A variable reaches a setting if it names its place, or one further below. -/
def Reaches (name : String) (setting : Setting) : Prop :=
  ∃ steps, Environment.place? name = some (Environment.tableKey :: setting.key :: steps)

/-- What stands for a setting, if anything does, is valid for it. -/
def Valid (setting : Setting) (standing : Option Entry) : Prop :=
  ∀ entry, standing = some entry → ∃ value, entry.Gives value ∧ value.setting = setting

theorem place?_of_names {name : String} {setting : Setting} (h : Names name setting) :
    Environment.place? name = some [Environment.tableKey, setting.key] :=
  Environment.place?_of_key (by cases setting <;> decide) (by cases setting <;> decide)
    (by cases setting <;> decide) (by cases setting <;> decide) h

theorem text?_overlay (entry older : Entry) : (entry.overlay older).text? = entry.text? := by
  cases entry with
  | table origin members => cases older <;> simp [Entry.overlay, Entry.text?]
  | scalar origin value => simp [Entry.overlay]
  | list origin items => simp [Entry.overlay]

/-- What stands for a setting is what the last variable that reaches it gives, laid over the
rest. -/
theorem exists_standing_of_last {front back : List (String × String)} {name s : String}
    {setting : Setting} (hname : Names name setting)
    (hback : ∀ named ∈ back, ¬ Reaches named.1 setting) (file : Setting → Option Entry) :
    ∃ entry, standing (front ++ (name, s) :: back) file setting = some entry ∧
      entry.text? = (EnvironmentValue.entryOf s).text? := by
  have hreached : Environment.reached? (name, s)
      = some (setting.key, EnvironmentValue.entryOf s) := by
    rw [Environment.reached?, place?_of_names hname]
  have hlast := Environment.lookup?_given_of_last front hreached
    fun named hmem entry hnamed => hback named hmem (Environment.exists_place_of_reached? hnamed)
  rw [standing, hlast]
  cases Keyed.lookup? setting.key (Environment.given front) <;> cases file setting <;>
    exact ⟨_, rfl, by simp only [text?_overlay]⟩

theorem gives_get_iff {setting : Setting} (h : setting = .nodeId ∨ setting = .logLevel)
    (entry : Entry) (settings : Settings) :
    entry.Gives (settings.get setting) ↔ entry.text? = settings.text? setting := by
  rcases h with rfl | rfl
  · constructor
    · intro h
      cases h with
      | nodeId hs => exact hs
    · exact .nodeId
  · constructor
    · intro h
      cases h with
      | logLevel hs => exact hs
    · exact .logLevel

/-- **A text is taken verbatim unless it is a literal.** It is given to one of the two settings that
take any text, by the last variable that reaches the setting, and has no white space at its ends;
whatever stands for another setting is valid for it. Then the load succeeds with the text, by
which the node calls itself if it is the one of its settings, and a literal is never taken as its
own text. -/
theorem text_verbatim {file : Setting → Option Entry}
    {load : List (String × String) → Except LoadError Settings} (hload : Source file load)
    {front back : List (String × String)} {name s : String} {setting : Setting}
    (hsetting : setting = .nodeId ∨ setting = .logLevel) (hname : Names name setting)
    (hback : ∀ named ∈ back, ¬ Reaches named.1 setting)
    (hothers : ∀ other, other ≠ setting →
      Valid other (standing (front ++ (name, s) :: back) file other))
    (htrim : Text.trimChars s.toList = s.toList) :
    (¬ EnvironmentValue.Literal s.toList →
      ∃ settings, load (front ++ (name, s) :: back) = .ok settings ∧
        settings.text? setting = some s ∧
        (setting = .nodeId → ∀ mempool, (Node.mk settings mempool).nodeType.id = s)) ∧
    (EnvironmentValue.Literal s.toList →
      ∀ settings, load (front ++ (name, s) :: back) = .ok settings →
        settings.text? setting ≠ some s) := by
  obtain ⟨entry, hstanding, htext⟩ := exists_standing_of_last (s := s) hname hback file
  have hverbatim := EnvironmentValue.text?_entryOf_eq_some_iff htrim
  have hread {settings : Settings} (hok : load (front ++ (name, s) :: back) = .ok settings) :
      (EnvironmentValue.entryOf s).text? = settings.text? setting := by
    have htakes := (hload.eq_ok_iff _ settings).mp hok setting
    rw [hstanding] at htakes
    rw [← htext]
    exact (gives_get_iff hsetting entry settings).mp htakes
  constructor
  · intro hliteral
    have hs : (EnvironmentValue.entryOf s).text? = some s := hverbatim.mpr hliteral
    have hvalid : Valid setting (some entry) := by
      rintro _ ⟨⟩
      rw [hs] at htext
      rcases hsetting with rfl | rfl
      · exact ⟨.nodeId s, .nodeId htext, rfl⟩
      · exact ⟨.logLevel s, .logLevel htext, rfl⟩
    obtain ⟨settings, hok⟩ := (hload.exists_ok_iff (front ++ (name, s) :: back)).mpr fun other => by
      by_cases hother : other = setting
      · subst hother
        rw [hstanding]
        exact hvalid
      · exact hothers other hother
    have hvalue : settings.text? setting = some s := (hread hok).symm.trans hs
    refine ⟨settings, hok, hvalue, ?_⟩
    rintro rfl mempool
    exact Option.some.inj hvalue
  · intro hliteral settings hok hvalue
    exact hverbatim.mp ((hread hok).trans hvalue) hliteral

/-- A name with digits at its end is no literal, and is what the node calls itself. -/
theorem text_verbatim_name :
    ¬ EnvironmentValue.Literal "node-7".toList ∧
    ∃ settings, fromEnvironment [("NODE_READ_NODE_ID", "node-7")] = .ok settings ∧
      settings.nodeId = "node-7" ∧ (Node.mk settings none).nodeType.id = "node-7" := by
  have hnames : Names "NODE_READ_NODE_ID" .nodeId := by decide +kernel
  have htrim : Text.trimChars "node-7".toList = "node-7".toList := by decide +kernel
  have hliteral : ¬ EnvironmentValue.Literal "node-7".toList :=
    (EnvironmentValue.text?_entryOf_eq_some_iff htrim).mp rfl
  have hothers : ∀ other, other ≠ Setting.nodeId →
      Valid other
        (standing ([] ++ ("NODE_READ_NODE_ID", "node-7") :: []) (fun _ => none) other) := by
    intro other hother entry hentry
    have hnone : standing [("NODE_READ_NODE_ID", "node-7")] (fun _ => none) other = none := by
      cases other with
      | nodeId => exact absurd rfl hother
      | _ => rfl
    rw [List.nil_append, hnone] at hentry
    cases hentry
  obtain ⟨settings, hok, hvalue, hnode⟩ := (text_verbatim .defaults (.inl rfl) hnames
    (fun named hmem => absurd hmem List.not_mem_nil) hothers htrim).1 hliteral
  exact ⟨hliteral, settings, hok, Option.some.inj hvalue, hnode rfl none⟩

/-- A text of digits is read as a number, which no name can be. -/
theorem text_verbatim_digits :
    Names "NODE_READ_NODE_ID" .nodeId ∧ Text.trimChars "5".toList = "5".toList ∧
    ∀ settings, fromEnvironment [("NODE_READ_NODE_ID", "5")] ≠ .ok settings := by
  refine ⟨by decide +kernel, by decide +kernel, fun settings hok => ?_⟩
  have htakes := (Source.defaults.eq_ok_iff _ settings).mp hok .nodeId
  have hstanding : standing [("NODE_READ_NODE_ID", "5")] (fun _ => none) .nodeId
      = some (.scalar .environment (.unsigned 5)) := rfl
  rw [hstanding] at htakes
  have htext := (gives_get_iff (.inl rfl) _ settings).mp htakes
  cases htext

end NodeView.Settings
