import Cascade.Config
import Cascade.Proofs.TomlTables
set_option autoImplicit false

/-! Configurations and the TOML texts that write them. Main statement: in every format whose
integers have 64 bits and that reads back the tables it writes, a configuration that was read from
any text has positive limits, can be written, and is read again from what was written; and a
configuration whose limits fit into 64 bits is read back if it is valid, and refused for its own
problem if not. -/

namespace Cascade.EngineConfig

/-- The greatest limit that a document can hold. -/
def greatestLimit : Nat := Int64.maxValue.toInt.toNat

def Writable (config : EngineConfig) : Prop :=
  config.maxCacheEntries ≤ greatestLimit ∧ config.maxMixinDepth ≤ greatestLimit

variable {config : EngineConfig} {limit : Nat}

/-! ### Written documents -/

theorem fitsWord_limit (fits : limit ≤ greatestLimit) : Toml.FitsWord limit := by
  have least : Int64.minValue.toInt = -2 ^ 63 := rfl
  have greatest : Int64.maxValue.toInt = 2 ^ 63 - 1 := rfl
  have bound : greatestLimit = 2 ^ 63 - 1 := rfl
  constructor
  · omega
  · omega

theorem keys_members (config : EngineConfig) :
    config.members.map Prod.fst = [cacheEnabledKey, maxCacheEntriesKey, maxMixinDepthKey] := rfl

theorem isFlat_members (writable : config.Writable) : Toml.IsFlat config.members where
  distinct := by
    rw [keys_members]
    decide
  bare := by
    have each : ∀ key ∈ config.members.map Prod.fst, Toml.isBare key = true := by
      rw [keys_members]
      decide
    exact List.forall_mem_map.mp each
  scalars := by
    have entries : Toml.IsScalar (.integer config.maxCacheEntries) :=
      .integer (fitsWord_limit writable.1)
    have depth : Toml.IsScalar (.integer config.maxMixinDepth) :=
      .integer (fitsWord_limit writable.2)
    exact List.forall_mem_cons.mpr ⟨.bool _, List.forall_mem_cons.mpr ⟨entries,
      List.forall_mem_singleton.mpr depth⟩⟩

theorem limit?_integer (fits : limit ≤ greatestLimit) : limit? (.integer limit) = some limit := by
  have bound : greatestLimit = 2 ^ 63 - 1 := rfl
  have inRange : 0 ≤ (limit : Int) ∧ (limit : Int) < 0x10000000000000000 := by omega
  rw [limit?, if_pos inRange, Int.toNat_natCast]

theorem named_of_perm {found members : List (String × Document)} (perm : found.Perm members)
    {key : String} {document : Document} (single : named members key = [document]) :
    named found key = [document] := by
  have same : (named found key).Perm (named members key) := (perm.filter _).map _
  rw [single] at same
  exact List.perm_singleton.mp same

theorem ofSettings?_given {enabled entries depth : Document}
    (readEnabled : flag? enabled = some config.cacheEnabled)
    (readEntries : limit? entries = some config.maxCacheEntries)
    (readDepth : limit? depth = some config.maxMixinDepth) :
    ofSettings? [enabled] [entries] [depth] = some config := by
  simp only [ofSettings?, setting?, readEnabled, readEntries, readDepth]
  rfl

/-- The order of the settings does not matter. -/
theorem decode_of_perm (writable : config.Writable) {found : List (String × Document)}
    (perm : found.Perm config.members) : decode (.object found) = some config := by
  have enabled : named found cacheEnabledKey = [.bool config.cacheEnabled] :=
    named_of_perm perm rfl
  have entries : named found maxCacheEntriesKey = [.integer config.maxCacheEntries] :=
    named_of_perm perm rfl
  have depth : named found maxMixinDepthKey = [.integer config.maxMixinDepth] :=
    named_of_perm perm rfl
  rw [decode, enabled, entries, depth]
  exact ofSettings?_given rfl (limit?_integer writable.1) (limit?_integer writable.2)

/-! ### Read documents -/

/-- All integers in the document are words. -/
def HasWords (document : Document) : Prop :=
  ∀ number, Toml.Occurs number document → Toml.FitsWord number

/-- A limit that was read can be written. -/
theorem le_of_setting? {default : Nat} (fits : default ≤ greatestLimit) {given : List Document}
    (words : ∀ document ∈ given, HasWords document)
    (read : setting? limit? default given = some limit) : limit ≤ greatestLimit := by
  cases given with
  | nil =>
      cases read
      exact fits
  | cons document rest =>
      cases rest with
      | nil =>
          cases document with
          | integer number =>
              have word := words _ List.mem_cons_self number .here
              rw [setting?, limit?] at read
              split at read
              · rw [← Option.some.inj read]
                exact Int.toNat_le_toNat word.2
              · cases read
          | _ => cases read
      | cons => cases read

theorem writable_of_ofSettings? {enabled entries depth : List Document}
    (entriesWords : ∀ document ∈ entries, HasWords document)
    (depthWords : ∀ document ∈ depth, HasWords document)
    (read : ofSettings? enabled entries depth = some config) : config.Writable := by
  obtain ⟨_, _, rest⟩ := Option.bind_eq_some_iff.mp read
  obtain ⟨greatest, readEntries, rest⟩ := Option.bind_eq_some_iff.mp rest
  obtain ⟨deepest, readDepth, rest⟩ := Option.bind_eq_some_iff.mp rest
  cases rest
  exact ⟨le_of_setting? (by decide) entriesWords readEntries,
    le_of_setting? (by decide) depthWords readDepth⟩

theorem hasWords_named {members : List (String × Document)} (words : HasWords (.object members))
    (key : String) : ∀ document ∈ named members key, HasWords document := by
  intro document isNamed number inside
  obtain ⟨member, chosen, rfl⟩ := List.mem_map.mp isNamed
  exact words number (.member (List.mem_filter.mp chosen).1 inside)

theorem writable_of_decode {document : Document} (words : HasWords document)
    (read : decode document = some config) : config.Writable := by
  cases document with
  | object members =>
      exact writable_of_ofSettings? (hasWords_named words maxCacheEntriesKey)
        (hasWords_named words maxMixinDepthKey) read
  | array items =>
      have each : ∀ item ∈ items, HasWords item :=
        fun item listed number inside => words number (.item listed inside)
      rw [decode] at read
      split at read
      · refine writable_of_ofSettings? ?_ ?_ read
        · exact fun item taken => each item (List.mem_of_mem_drop (List.mem_of_mem_take taken))
        · exact fun item taken => each item (List.mem_of_mem_drop (List.mem_of_mem_take taken))
      · cases read
  | _ => cases read

/-! ### Texts -/

theorem validate_eq_ok_iff :
    config.validate = .ok () ↔ 1 ≤ config.maxCacheEntries ∧ 1 ≤ config.maxMixinDepth := by
  unfold validate
  split
  · next noEntries => simp [noEntries]
  · next someEntries =>
      split
      · next noDepth => simp [noDepth]
      · next someDepth =>
          exact iff_of_true rfl ⟨Nat.pos_of_ne_zero someEntries, Nat.pos_of_ne_zero someDepth⟩

theorem load_eq_ok {format : Format} {text : String}
    (loaded : format.load decode text = .ok config) :
    ∃ document, format.read text = .ok document ∧ decode document = some config := by
  unfold Format.load at loaded
  split at loaded
  · cases loaded
  · next document read =>
      split at loaded
      · cases loaded
      · next found decoded =>
          cases loaded
          exact ⟨document, read, decoded⟩

theorem ofText_eq_ok {format : Format} {text : String} (read : ofText format text = .ok config) :
    (∃ document, format.read text = .ok document ∧ decode document = some config) ∧
      config.validate = .ok () := by
  unfold ofText at read
  split at read
  · cases read
  · next found loaded =>
      cases valid : found.validate with
      | error problem =>
          rw [valid] at read
          cases read
      | ok _ =>
          rw [valid] at read
          cases read
          exact ⟨load_eq_ok loaded, valid⟩

section Format

variable {format : Format} (writes : Toml.WritesTables format) (reads : Toml.ReadsWritten format)

include writes reads

/-- What is written of a configuration is read as the configuration, and checked. -/
theorem exists_reads_back (writable : config.Writable) :
    ∃ written, config.toText format = .ok written ∧
      ofText format written = config.validate.map fun _ => config := by
  have flat := isFlat_members writable
  obtain ⟨written, isWritten⟩ := writes _ flat
  obtain ⟨found, read, perm⟩ := reads _ _ flat isWritten
  refine ⟨written, isWritten, ?_⟩
  simp only [ofText, Format.load, read, decode_of_perm writable perm]

end Format

/-- A configuration that was read from some text has positive limits, can be written, and is read
again from what is written. A configuration whose limits a document can hold is always written; it
is read again if it is valid, and refused for the problem that validation finds if not. Of the
format it is only assumed that its integers have 64 bits, that it writes flat tables, and that it
reads them back, in any order. -/
theorem toml_text_reads_back (format : Format) (words : Toml.ReadsWords format)
    (writes : Toml.WritesTables format) (reads : Toml.ReadsWritten format) :
    (∀ (text : String) (config : EngineConfig), ofText format text = .ok config →
      1 ≤ config.maxCacheEntries ∧ 1 ≤ config.maxMixinDepth ∧
      ∃ written, config.toText format = .ok written ∧ ofText format written = .ok config) ∧
    ∀ config : EngineConfig,
      config.maxCacheEntries ≤ greatestLimit → config.maxMixinDepth ≤ greatestLimit →
      ∃ written, config.toText format = .ok written ∧
        (config.validate = .ok () → ofText format written = .ok config) ∧
        ∀ problem, config.validate = .error problem →
          ofText format written = .error problem := by
  refine ⟨?_, ?_⟩
  · intro text config read
    obtain ⟨⟨document, found, decoded⟩, valid⟩ := ofText_eq_ok read
    obtain ⟨entriesPositive, depthPositive⟩ := validate_eq_ok_iff.mp valid
    have writable := writable_of_decode (words text document found) decoded
    obtain ⟨written, isText, again⟩ := exists_reads_back writes reads writable
    rw [valid] at again
    exact ⟨entriesPositive, depthPositive, written, isText, again⟩
  · intro config entriesFit depthFit
    obtain ⟨written, isText, again⟩ := exists_reads_back writes reads ⟨entriesFit, depthFit⟩
    refine ⟨written, isText, ?_, ?_⟩
    · intro valid
      rw [again, valid]
      rfl
    · intro problem invalid
      rw [again, invalid]
      rfl

/-- The text that is written for a chain of up to 64 mixins. -/
def deepText : String := "cache_enabled = true\nmax_cache_entries = 4096\nmax_mixin_depth = 64\n"

/-- The format of this library is one of those. -/
theorem deepText_reads_back :
    Toml.ReadsWords Toml.format ∧ Toml.WritesTables Toml.format ∧ Toml.ReadsWritten Toml.format ∧
    toText Toml.format { maxMixinDepth := 64 } = .ok deepText ∧
    ofText Toml.format deepText = .ok { maxMixinDepth := 64 } ∧
    (∃ written, toText Toml.format { maxMixinDepth := 64 } = .ok written ∧
      ofText Toml.format written = .ok { maxMixinDepth := 64 }) ∧
    ∃ written, toText Toml.format { maxMixinDepth := 0 } = .ok written ∧
      ofText Toml.format written = .error (.config (.zero maxMixinDepthKey)) := by
  have words := Toml.format_readsWords
  have writes := Toml.format_writesTables
  have reads := Toml.format_readsWritten
  have isDeep : toText Toml.format { maxMixinDepth := 64 } = .ok deepText := by decide +kernel
  obtain ⟨again, back⟩ := toml_text_reads_back Toml.format words writes reads
  obtain ⟨text, isText, read, _⟩ := back { maxMixinDepth := 64 } (by decide) (by decide)
  cases isDeep.symm.trans isText
  obtain ⟨_, _, written⟩ := again deepText _ (read rfl)
  obtain ⟨refusedText, isRefused, _, refused⟩ :=
    back { maxMixinDepth := 0 } (by decide) (by decide)
  exact ⟨words, writes, reads, isDeep, read rfl, written, refusedText, isRefused, refused _ rfl⟩

/-- A text need not give all settings, and may write integers in other bases. -/
example : ofText Toml.format "max_mixin_depth = 0x10" = .ok { maxMixinDepth := 16 } := by cbv

end Cascade.EngineConfig
