import FieldExtract.Proofs.Admission
import FieldExtract.Proofs.Numerals

/-!
# Settings that are read and checked

A variable that is set says a flag or a level, or it says nothing and its raw value is refused. What
is refused is the first of the flag, the numeral of the level and the level itself. Settings are
checked before a client is made of them, the level before the source, and no client has others; the
level it uses by default is therefore never refused.
-/

namespace FieldExtract

namespace Settings

def flagWords : List (String × Bool) :=
  [("1", true), ("true", true), ("yes", true), ("on", true),
    ("0", false), ("false", false), ("no", false), ("off", false), ("", false)]

/-- Blanks around the word and the case of its ASCII letters aside, it is one of the words. -/
def SaysFlag (value : String) (flag : Bool) : Prop :=
  ((Text.trim value).map Char.toLower, flag) ∈ flagWords

/-- Blanks around it aside, the value is a numeral of 32 bits. -/
structure SaysLevel (value : String) (level : Nat) : Prop where
  numeral : Text.Numeral.Writes (Text.trim value).toList level
  fits : level ≤ maxLevelNumeral

/-- What a variable says if it is set, and otherwise the default. -/
def Gives {α : Type} (Says : String → α → Prop) (start : α) : Option String → α → Prop
  | none, a => a = start
  | some value, a => Says value a

/-- The defaults with what the two variables say in their place, within the bounds. -/
structure Configures (lookup : String → Option String) (s : Settings) : Prop where
  flag : Gives SaysFlag default.ignoreGridHash (lookup flagVariable) s.ignoreGridHash
  level : Gives SaysLevel default.axesLevel (lookup levelVariable) s.axesLevel
  bounds : 1 ≤ s.axesLevel ∧ s.axesLevel ≤ 3
  source : s.source = default.source

/-- The first thing that is wrong with the two variables. -/
inductive Misset (lookup : String → Option String) : SettingsError → Prop
  | flag {value : String} (hSet : lookup flagVariable = some value)
    (hNone : ∀ flag, ¬SaysFlag value flag) : Misset lookup (.invalidVariable flagVariable value)
  | level {value : String} {flag : Bool}
    (hFlag : Gives SaysFlag default.ignoreGridHash (lookup flagVariable) flag)
    (hSet : lookup levelVariable = some value) (hNone : ∀ level, ¬SaysLevel value level) :
    Misset lookup (.invalidVariable levelVariable value)
  | range {flag : Bool} {level : Nat}
    (hFlag : Gives SaysFlag default.ignoreGridHash (lookup flagVariable) flag)
    (hLevel : Gives SaysLevel default.axesLevel (lookup levelVariable) level)
    (hOutside : ¬(1 ≤ level ∧ level ≤ 3)) : Misset lookup (.axesLevelOutOfRange level)

structure Valid (s : Settings) : Prop where
  bounds : 1 ≤ s.axesLevel ∧ s.axesLevel ≤ 3
  source : ∃ c ∈ s.source.toList, Text.isBlank c = false

/-- The first thing that is wrong with settings. -/
inductive Invalid (s : Settings) : SettingsError → Prop
  | level (hOutside : ¬(1 ≤ s.axesLevel ∧ s.axesLevel ≤ 3)) :
    Invalid s (.axesLevelOutOfRange s.axesLevel)
  | source (hBounds : 1 ≤ s.axesLevel ∧ s.axesLevel ≤ 3)
    (hBlank : ∀ c ∈ s.source.toList, Text.isBlank c = true) : Invalid s .emptyContextSource

variable {value : String} {s : Settings} {fault : SettingsError}
  {lookup : String → Option String}

theorem readFlag_eq_some_iff {flag : Bool} : readFlag value = some flag ↔ SaysFlag value flag := by
  simp only [readFlag, SaysFlag]
  generalize (Text.trim value).map Char.toLower = word
  split
  · next hYes =>
    simp only [List.mem_cons, List.not_mem_nil, or_false] at hYes
    rcases hYes with rfl | rfl | rfl | rfl <;> cases flag <;> decide
  · next hYes =>
    split
    · next hNo =>
      simp only [List.mem_cons, List.not_mem_nil, or_false] at hNo
      rcases hNo with rfl | rfl | rfl | rfl | rfl <;> cases flag <;> decide
    · next hNo =>
      simp only [List.mem_cons, List.not_mem_nil, or_false, not_or] at hYes hNo
      simp [flagWords, hYes, hNo]

theorem readLevel_eq_some_iff {level : Nat} :
    readLevel value = some level ↔ SaysLevel value level := by
  have hRead : readLevel value = some level ↔
      Text.Numeral.readChars maxLevelNumeral (Text.trim value).toList = .ok level := by
    rw [readLevel, Text.Numeral.read]
    cases Text.Numeral.readChars maxLevelNumeral (Text.trim value).toList with
    | error f => simp [Except.toOption]
    | ok n => simp [Except.toOption]
  rw [hRead, Text.Numeral.readChars_eq_ok_iff]
  exact ⟨fun h => ⟨h.1, h.2⟩, fun h => ⟨h.numeral, h.fits⟩⟩

section

variable {α : Type} {read : String → Option α} {Says : String → α → Prop} {name : String}
  {start a : α} {raw : Option String}

theorem overlay_eq_ok_iff (hRead : ∀ {value a}, read value = some a ↔ Says value a) :
    overlay name read start raw = .ok a ↔ Gives Says start raw a := by
  cases raw with
  | none => simp [overlay, Gives, eq_comm]
  | some value =>
    rw [overlay, Gives, ← hRead]
    cases read value with
    | none => simp
    | some b => simp

theorem overlay_eq_error_iff (hRead : ∀ {value a}, read value = some a ↔ Says value a) :
    overlay name read start raw = .error fault ↔
      ∃ value, raw = some value ∧ (∀ a, ¬Says value a) ∧ fault = .invalidVariable name value := by
  cases raw with
  | none => simp [overlay]
  | some value =>
    have hNone : read value = none ↔ ∀ a, ¬Says value a := by
      simp only [Option.eq_none_iff_forall_ne_some, ne_eq, hRead]
    rw [overlay]
    cases hValue : read value with
    | none => simp [← hNone, hValue, eq_comm]
    | some b => simp [← hNone, hValue]

end

theorem checkLevel_eq_error_iff {level : Nat} :
    checkLevel level = .error fault ↔
      ¬(1 ≤ level ∧ level ≤ 3) ∧ fault = .axesLevelOutOfRange level := by
  unfold checkLevel
  split
  · next h => simp [h]
  · next h => simp [h, eq_comm]

theorem validate_eq_ok_iff : s.validate = .ok () ↔ s.Valid := by
  have hSource : (Text.trim s.source).isEmpty = false ↔
      ∃ c ∈ s.source.toList, Text.isBlank c = false := by
    rw [← Bool.not_eq_true, Text.isEmpty_trim_iff]
    simp
  simp only [validate, bind_eq_ok_iff]
  constructor
  · rintro ⟨⟨⟩, hLevel, h⟩
    split at h
    · cases h
    · next hFilled =>
      exact ⟨checkLevel_eq_ok_iff.mp hLevel, hSource.mp (Bool.eq_false_iff.mpr hFilled)⟩
  · rintro ⟨hBounds, hFilled⟩
    refine ⟨(), checkLevel_eq_ok_iff.mpr hBounds, ?_⟩
    rw [hSource.mpr hFilled]
    rfl

theorem validate_eq_error_iff : s.validate = .error fault ↔ s.Invalid fault := by
  simp only [validate, bind_eq_error_iff]
  constructor
  · rintro (h | ⟨⟨⟩, hLevel, h⟩)
    · obtain ⟨hOutside, rfl⟩ := checkLevel_eq_error_iff.mp h
      exact .level hOutside
    · split at h
      · next hBlank =>
        cases h
        exact .source (checkLevel_eq_ok_iff.mp hLevel) (Text.isEmpty_trim_iff.mp hBlank)
      · cases h
  · rintro (hOutside | ⟨hBounds, hBlank⟩)
    · exact .inl (checkLevel_eq_error_iff.mpr ⟨hOutside, rfl⟩)
    · exact .inr ⟨(), checkLevel_eq_ok_iff.mpr hBounds, if_pos (Text.isEmpty_trim_iff.mpr hBlank)⟩

theorem filled_default_source : ∃ c ∈ default.source.toList, Text.isBlank c = false :=
  ⟨'g', by decide, by decide⟩

theorem ofLookup_eq_ok_iff : ofLookup lookup = .ok s ↔ Configures lookup s := by
  simp only [ofLookup, bind_eq_ok_iff, overlay_eq_ok_iff readFlag_eq_some_iff,
    overlay_eq_ok_iff readLevel_eq_some_iff]
  constructor
  · rintro ⟨flag, hFlag, level, hLevel, ⟨⟩, hValid, h⟩
    cases h
    exact ⟨hFlag, hLevel, (validate_eq_ok_iff.mp hValid).bounds, rfl⟩
  · rintro ⟨hFlag, hLevel, hBounds, hSource⟩
    obtain ⟨level, source, flag⟩ := s
    cases hSource
    exact ⟨flag, hFlag, level, hLevel, (), validate_eq_ok_iff.mpr ⟨hBounds, filled_default_source⟩,
      rfl⟩

theorem ofLookup_eq_error_iff : ofLookup lookup = .error fault ↔ Misset lookup fault := by
  simp only [ofLookup, bind_eq_error_iff, overlay_eq_ok_iff readFlag_eq_some_iff,
    overlay_eq_ok_iff readLevel_eq_some_iff, overlay_eq_error_iff readFlag_eq_some_iff,
    overlay_eq_error_iff readLevel_eq_some_iff, validate_eq_error_iff]
  constructor
  · rintro (⟨value, hSet, hNone, rfl⟩ | ⟨flag, hFlag, ⟨value, hSet, hNone, rfl⟩ |
      ⟨level, hLevel, h | ⟨_, _, h⟩⟩⟩)
    · exact .flag hSet hNone
    · exact .level hFlag hSet hNone
    · -- The source is the default one, so a fault of it is out of the question.
      obtain hOutside | ⟨_, hBlank⟩ := h
      · exact .range hFlag hLevel hOutside
      · obtain ⟨c, hc, hFilled⟩ := filled_default_source
        exact absurd (hFilled.symm.trans (hBlank c hc)) Bool.false_ne_true
    · cases h
  · rintro (⟨hSet, hNone⟩ | ⟨hFlag, hSet, hNone⟩ | ⟨hFlag, hLevel, hOutside⟩)
    · exact .inl ⟨_, hSet, hNone, rfl⟩
    · exact .inr ⟨_, hFlag, .inl ⟨_, hSet, hNone, rfl⟩⟩
    · exact .inr ⟨_, hFlag, .inr ⟨_, hLevel, .inl (.level hOutside)⟩⟩

example : ofLookup (fun name => if name = flagVariable then none else some "\t+0004 ") =
    .error (.axesLevelOutOfRange 4) := by decide

end Settings

namespace Client

variable {settings : Settings} {identity : Identity}

theorem ofSettings_eq_ok_iff {c : Client} :
    ofSettings settings identity = .ok c ↔
      settings.Valid ∧ c.settings = settings ∧ c.identity = identity := by
  unfold ofSettings
  split
  · next h =>
    have hValid := Settings.validate_eq_ok_iff.mp h
    obtain ⟨own, who, _⟩ := c
    simp [hValid, eq_comm]
  · next fault h =>
    have hInvalid : ¬settings.Valid := fun hValid => by
      cases h.symm.trans (Settings.validate_eq_ok_iff.mpr hValid)
    simp [hInvalid]

theorem ofSettings_eq_error_iff {e : ClientError} :
    ofSettings settings identity = .error e ↔
      ∃ fault, settings.Invalid fault ∧ e = .settings fault := by
  simp only [← Settings.validate_eq_error_iff]
  unfold ofSettings
  split
  · next h => simp [h]
  · next fault h => simp [h, eq_comm]

section

variable {ε : Type} [Engine ε]

theorem axes_answer_eq (c : Client) (key : Key) (level : Option Nat) (context : Option Context)
    (e : ε) :
    (c.axes key level context e).answer =
      (Axes.discover key (level.getD c.settings.axesLevel)
        (c.contextJson (Engine.version e) Action.axes.name context) e).answer := by
  unfold axes
  dsimp only
  split
  · rfl
  · rfl

theorem discover_answer_ne_settings {level : Nat} (h : Settings.checkLevel level = .ok ())
    (key : Key) (text : String) (e : ε) (fault : SettingsError) :
    (Axes.discover key level text e).answer ≠ .error (.settings fault) := by
  unfold Axes.discover
  rw [h]
  dsimp only
  split
  · exact fun hFault => by cases hFault
  · exact fun hFault => by cases hFault

/-- Settings come from variables that say something within the bounds and clients from settings
that are valid; an axes call that names no level is not refused for the settings of its client. -/
theorem settings_checked (identity : Identity) :
    (∀ lookup s, Settings.ofLookup lookup = .ok s ↔ Settings.Configures lookup s) ∧
    (∀ lookup fault, Settings.ofLookup lookup = .error fault ↔ Settings.Misset lookup fault) ∧
    (∀ settings c, ofSettings settings identity = .ok c ↔
      settings.Valid ∧ c.settings = settings ∧ c.identity = identity) ∧
    (∀ settings e, ofSettings settings identity = .error e ↔
      ∃ fault, settings.Invalid fault ∧ e = .settings fault) ∧
    ∀ (c : Client) (key : Key) (context : Option Context) (e : ε) (fault : SettingsError),
      (c.axes key none context e).answer ≠ .error (.settings fault) := by
  refine ⟨fun _ _ => Settings.ofLookup_eq_ok_iff, fun _ _ => Settings.ofLookup_eq_error_iff,
    fun _ _ => ofSettings_eq_ok_iff, fun _ _ => ofSettings_eq_error_iff, ?_⟩
  intro c key context e fault
  rw [axes_answer_eq]
  exact discover_answer_ne_settings (Settings.checkLevel_of_validate c.valid) key _ e fault

end

end Client

end FieldExtract
