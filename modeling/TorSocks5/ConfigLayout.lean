/-
**The old layout of the configuration.**

In the old layout the bridge pool was a section of the main configuration, and an override of the
DNS server had a single mask under the key `pattern`.  Both are found on the parsed document, before
the typed schema is asked: one function lists the differences, another one converts the masks.  The
schema denies unknown keys, so a document that it accepts is in the current layout.
-/

import Mathlib

set_option autoImplicit false

namespace ConfigLayout

/-! ### Documents -/

/-- A Ktav value; the scalars other than texts are not told apart. -/
inductive Value
  | text (s : List Char)
  | scalar (s : List Char)
  | array (values : List Value)
  | object (bindings : List (List Char × Value))

/-- The bindings of an object, in order. -/
abbrev ObjectMap := List (List Char × Value)

namespace ObjectMap

def get (m : ObjectMap) (key : List Char) : Option Value :=
  (m.find? fun b => b.1 = key).map Prod.snd

def containsKey (m : ObjectMap) (key : List Char) : Bool := m.any fun b => b.1 = key

/-- The object without a key; the order of the others is kept. -/
def shiftRemove (m : ObjectMap) (key : List Char) : ObjectMap := m.eraseP fun b => b.1 = key

/-- The value of a key that is there is replaced. -/
def set (m : ObjectMap) (key : List Char) (value : Value) : ObjectMap :=
  m.map fun b => if b.1 = key then (key, value) else b

def insert (m : ObjectMap) (key : List Char) (value : Value) : ObjectMap :=
  if m.containsKey key then m.set key value else m ++ [(key, value)]

theorem containsKey_eq_isSome (m : ObjectMap) (key : List Char) :
    m.containsKey key = (m.get key).isSome := by
  rw [get, Option.isSome_map, List.isSome_find?]
  rfl

theorem containsKey_eq_false {m : ObjectMap} {key : List Char} {keys : List (List Char)}
    (hkeys : ∀ b ∈ m, b.1 ∈ keys) (hkey : key ∉ keys) : m.containsKey key = false := by
  rw [containsKey, List.any_eq_false]
  exact fun b hb hsame => hkey (of_decide_eq_true hsame ▸ hkeys b hb)

/-- Another key is not affected by a removal. -/
theorem get_shiftRemove_of_ne (m : ObjectMap) {key key' : List Char} (hne : key' ≠ key) :
    (m.shiftRemove key).get key' = m.get key' := by
  induction m with
  | nil => rfl
  | cons b m ih =>
    by_cases hb : b.1 = key
    · simp [shiftRemove, get, hb, hne.symm]
    · have hkeep : shiftRemove (b :: m) key = b :: shiftRemove m key := by
        simp [shiftRemove, hb]
      rw [hkeep, get, get, List.find?_cons, List.find?_cons]
      cases decide (b.1 = key') with
      | true => rfl
      | false => exact ih

end ObjectMap

def bridgesKey : List Char := "bridges".toList
def dnsServerKey : List Char := "dns_server".toList
def overridesKey : List Char := "overrides".toList
def patternKey : List Char := "pattern".toList
def patternsKey : List Char := "patterns".toList
def resolverKey : List Char := "resolver".toList
def serverKey : List Char := "server".toList

/-! ### The schema -/

inductive DnsOverrideKind
  | system
  | dns
  deriving DecidableEq

structure DnsOverrideConfig where
  patterns : List (List Char)
  resolver : DnsOverrideKind
  server : List Char
  deriving DecidableEq

/-- The section of the DNS server; its other fields have type `D`. -/
structure DnsServerConfig (D : Type) where
  overrides : List DnsOverrideConfig
  others : D

/-- The main configuration; its other sections have type `R`. -/
structure Config (R D : Type) where
  dnsServer : DnsServerConfig D
  others : R

/-- What the program uses of the Ktav library and of the schema of the parts that both layouts
share.  The bridge pool has type `P`. -/
structure Library (R D P : Type) where
  parse : List Char → Option Value
  /-- A text field. -/
  string : Value → Option (List Char)
  /-- The other fields of the main configuration and of the DNS server. -/
  sections : ObjectMap → Option R
  dnsFields : ObjectMap → Option D
  /-- Values other than objects in the place of an override or of the DNS server. -/
  overrideValue : Value → Option DnsOverrideConfig
  dnsValue : Value → Option (DnsServerConfig D)
  /-- The other fields of the DNS server in a configuration without that section. -/
  dnsDefault : D
  /-- The schema of the bridge pool. -/
  bridges : Value → Option P
  /-- The printed pool and the printed main configuration. -/
  poolText : P → Option (List Char)
  mainText : Config R D → Option (List Char)
  /-- How many lines and sources the pool has. -/
  lines : P → ℕ
  sources : P → ℕ

def configKeys : List (List Char) :=
  ["listen", "log", "watchdog", "warm_pool", "conn_health", "upstream", "pre_socks5", "post_socks5",
    "auth", "security", "dns", "tor", "dns_server", "onion_services"].map String.toList

def dnsServerKeys : List (List Char) :=
  ["enabled", "listen", "disable_builtin_providers", "custom_doh_providers", "overrides",
    "client_access"].map String.toList

def overrideKeys : List (List Char) := [patternsKey, resolverKey, serverKey]

section Schema

variable {R D P : Type} (lib : Library R D P)

/-- A lone mask is read as a list of one. -/
def overridePatterns : Value → Option (List (List Char))
  | .text mask => some [mask]
  | .array masks => masks.mapM lib.string
  | _ => none

def resolverKind (name : List Char) : Option DnsOverrideKind :=
  if name = "system".toList then some .system
  else if name = "dns".toList then some .dns
  else none

/-- Every key of an object is one of the schema's. -/
def denyUnknown (keys : List (List Char)) (m : ObjectMap) : Option Unit :=
  if ∀ b ∈ m, b.1 ∈ keys then some () else none

/-- The schema of an override: its three keys are required. -/
def DnsOverrideConfig.fromValue : Value → Option DnsOverrideConfig
  | .object m => do
      denyUnknown overrideKeys m
      let patterns ← (ObjectMap.get m patternsKey).bind (overridePatterns lib)
      let resolver ← ((ObjectMap.get m resolverKey).bind lib.string).bind resolverKind
      let server ← (ObjectMap.get m serverKey).bind lib.string
      return ⟨patterns, resolver, server⟩
  | value => lib.overrideValue value

/-- The schema of the overrides, a list that may be missing. -/
def overridesFrom : Option Value → Option (List DnsOverrideConfig)
  | none => some []
  | some (.array entries) => entries.mapM (DnsOverrideConfig.fromValue lib)
  | some _ => none

def DnsServerConfig.fromValue : Value → Option (DnsServerConfig D)
  | .object m => do
      denyUnknown dnsServerKeys m
      let overrides ← overridesFrom lib (ObjectMap.get m overridesKey)
      let others ← lib.dnsFields (m.filter fun b => b.1 ≠ overridesKey)
      return ⟨overrides, others⟩
  | value => lib.dnsValue value

/-- The schema of the section of the DNS server, which may be missing. -/
def dnsServerFrom : Option Value → Option (DnsServerConfig D)
  | none => some ⟨[], lib.dnsDefault⟩
  | some value => DnsServerConfig.fromValue lib value

/-- The schema of the main configuration, which does not know the key of the bridge pool. -/
def Config.fromObject (m : ObjectMap) : Option (Config R D) := do
  denyUnknown configKeys m
  let dnsServer ← dnsServerFrom lib (m.get dnsServerKey)
  let others ← lib.sections (m.filter fun b => b.1 ≠ dnsServerKey)
  return ⟨dnsServer, others⟩

end Schema

/-! ### The differences to the current layout -/

/-- One difference between the old layout and the current one. -/
inductive Problem
  | inlineBridges
  | overridePattern (index : ℕ)
  deriving DecidableEq

/-- The overrides of a document; there are none if the DNS server has another form. -/
def overridesOf (root : ObjectMap) : List Value :=
  match root.get dnsServerKey with
  | some (.object dnsServer) =>
    match ObjectMap.get dnsServer overridesKey with
    | some (.array overrides) => overrides
    | _ => []
  | _ => []

/-- A value is an object with some key. -/
def Value.hasKey (key : List Char) : Value → Bool
  | .object m => ObjectMap.containsKey m key
  | _ => false

def layoutProblems (root : ObjectMap) : List Problem :=
  (if root.containsKey bridgesKey then [.inlineBridges] else []) ++
    (overridesOf root).zipIdx.filterMap fun entry =>
      if entry.1.hasKey patternKey then some (.overridePattern entry.2) else none

/-- Every difference in a text; one that does not parse has none. -/
def problems (parse : List Char → Option Value) (src : List Char) : List Problem :=
  match parse src with
  | some (.object root) => layoutProblems root
  | _ => []

/-- No difference is found exactly if there is neither a pool nor a mask. -/
theorem layoutProblems_nil_iff (root : ObjectMap) : layoutProblems root = [] ↔
    root.containsKey bridgesKey = false ∧ ∀ e ∈ overridesOf root, e.hasKey patternKey = false := by
  rw [layoutProblems, List.append_eq_nil_iff, List.filterMap_eq_nil_iff]
  refine and_congr (by cases root.containsKey bridgesKey <;> simp) ⟨fun h e he => ?_, ?_⟩
  · obtain ⟨i, hi, rfl⟩ := List.getElem_of_mem he
    simpa using h ((overridesOf root)[i], i)
      (List.mem_zipIdx_iff_getElem?.2 (List.getElem?_eq_getElem hi))
  · rintro h ⟨e, i⟩ he
    simp [h e (List.mem_of_getElem? (List.mem_zipIdx_iff_getElem?.1 he))]

section Accepted

variable {R D P : Type} {lib : Library R D P}

theorem keys_of_denyUnknown {keys : List (List Char)} {m : ObjectMap}
    (h : denyUnknown keys m = some ()) : ∀ b ∈ m, b.1 ∈ keys := by
  unfold denyUnknown at h
  split_ifs at h with hkeys
  exact hkeys

theorem hasKey_of_fromValue {value : Value} {override : DnsOverrideConfig}
    (h : DnsOverrideConfig.fromValue lib value = some override) :
      value.hasKey patternKey = false := by
  cases value with
  | text _ | scalar _ | array _ => rfl
  | object m =>
    simp only [DnsOverrideConfig.fromValue, Option.bind_eq_bind, Option.bind_eq_some_iff] at h
    obtain ⟨⟨⟩, hdeny, -⟩ := h
    exact ObjectMap.containsKey_eq_false (keys_of_denyUnknown hdeny) (by decide)

/-- If all values are read, each of them is. -/
theorem exists_of_mapM_eq_some {entries : List Value} {overrides : List DnsOverrideConfig}
    {e : Value}
    (h : entries.mapM (DnsOverrideConfig.fromValue lib) = some overrides) (he : e ∈ entries) :
    ∃ override, DnsOverrideConfig.fromValue lib e = some override := by
  induction entries generalizing overrides with
  | nil => simp at he
  | cons e' entries ih =>
    simp only [List.mapM_cons, Option.bind_eq_bind, Option.bind_eq_some_iff] at h
    obtain ⟨override, hoverride, rest, hrest, -⟩ := h
    rcases List.mem_cons.1 he with rfl | he
    · exact ⟨override, hoverride⟩
    · exact ih hrest he

theorem overrides_of_dnsServerFrom {root : ObjectMap} {dnsServer : DnsServerConfig D}
    (h : dnsServerFrom lib (root.get dnsServerKey) = some dnsServer) :
    ∀ e ∈ overridesOf root, e.hasKey patternKey = false := by
  unfold overridesOf
  split
  · next m hm =>
    simp only [hm, dnsServerFrom, DnsServerConfig.fromValue, Option.bind_eq_bind,
      Option.bind_eq_some_iff] at h
    obtain ⟨-, -, overrides, hoverrides, -⟩ := h
    split
    · next entries hentries =>
      rw [hentries] at hoverrides
      intro e he
      obtain ⟨override, hoverride⟩ := exists_of_mapM_eq_some hoverrides he
      exact hasKey_of_fromValue hoverride
    · simp
  · simp

/-- **What the schema accepts is in the current layout.** -/
theorem layoutProblems_of_fromObject {root : ObjectMap} {config : Config R D}
    (h : Config.fromObject lib root = some config) : layoutProblems root = [] := by
  simp only [Config.fromObject, Option.bind_eq_bind, Option.bind_eq_some_iff] at h
  obtain ⟨⟨⟩, hdeny, dnsServer, hdns, -⟩ := h
  exact (layoutProblems_nil_iff root).2
    ⟨ObjectMap.containsKey_eq_false (keys_of_denyUnknown hdeny) (by decide),
      overrides_of_dnsServerFrom hdns⟩

end Accepted

/-! ### The conversion of the masks -/

/-- An entry with both keys, at an index. -/
structure BothMaskKeys where
  index : ℕ
  deriving DecidableEq

def BothMaskKeys.message (e : BothMaskKeys) : List Char :=
  "dns_server.overrides[".toList ++ Nat.toDigits 10 e.index ++
    "] has both `pattern` and `patterns`; keep only `patterns`".toList

/-- The turn of the loop for an entry: the entry afterwards, and how many masks were converted. -/
def convertEntry (index : ℕ) : Value → Except BothMaskKeys (Value × ℕ)
  | .object entry =>
    match ObjectMap.get entry patternKey with
    | none => .ok (.object entry, 0)
    | some mask =>
      let rest := ObjectMap.shiftRemove entry patternKey
      if rest.containsKey patternsKey then .error ⟨index⟩
      else .ok (.object (rest.insert patternsKey (.array [mask])), 1)
  | value => .ok (value, 0)

/-- The loop over the entries from an index on. -/
def convertEntries : ℕ → List Value → Except BothMaskKeys (List Value × ℕ)
  | _, [] => .ok ([], 0)
  | index, entry :: entries => do
      let (entry, converted) ← convertEntry index entry
      let (entries, more) ← convertEntries (index + 1) entries
      return (entry :: entries, converted + more)

/-- Every single mask becomes a list of one. -/
def convertPatterns (root : ObjectMap) : Except BothMaskKeys (ObjectMap × ℕ) :=
  match root.get dnsServerKey with
  | some (.object dnsServer) =>
    match ObjectMap.get dnsServer overridesKey with
    | some (.array overrides) => do
        let (overrides, converted) ← convertEntries 0 overrides
        let dnsServer := ObjectMap.set dnsServer overridesKey (.array overrides)
        return (root.set dnsServerKey (.object dnsServer), converted)
    | _ => .ok (root, 0)
  | _ => .ok (root, 0)

/-- An entry with both keys. -/
def Value.hasBothMasks (e : Value) : Bool := e.hasKey patternKey && e.hasKey patternsKey

/-- An entry after the conversion, if it does not have both keys. -/
def convertedEntry : Value → Value
  | .object entry =>
    match ObjectMap.get entry patternKey with
    | none => .object entry
    | some mask => .object
        ((ObjectMap.shiftRemove entry patternKey).insert patternsKey (.array [mask]))
  | value => value

/-- The document after the conversion, if no entry has both keys. -/
def converted (root : ObjectMap) : ObjectMap :=
  match root.get dnsServerKey with
  | some (.object dnsServer) =>
    match ObjectMap.get dnsServer overridesKey with
    | some (.array overrides) =>
      root.set dnsServerKey
        (.object (ObjectMap.set dnsServer overridesKey (.array (overrides.map convertedEntry))))
    | _ => root
  | _ => root

theorem convertEntry_eq (index : ℕ) (e : Value) : convertEntry index e =
    if e.hasBothMasks then .error ⟨index⟩
    else .ok (convertedEntry e, if e.hasKey patternKey then 1 else 0) := by
  cases e with
  | text _ | scalar _ | array _ => rfl
  | object entry =>
    have hother : (ObjectMap.shiftRemove entry patternKey).containsKey patternsKey =
        ObjectMap.containsKey entry patternsKey := by
      rw [ObjectMap.containsKey_eq_isSome, ObjectMap.containsKey_eq_isSome,
        ObjectMap.get_shiftRemove_of_ne entry (by decide)]
    have hpattern := ObjectMap.containsKey_eq_isSome entry patternKey
    cases hget : ObjectMap.get entry patternKey with
    | none | some mask =>
      rw [hget] at hpattern
      simp [convertEntry, convertedEntry, Value.hasBothMasks, Value.hasKey, hother, hget,
        hpattern]

theorem convertEntries_of_both {entries : List Value} (h : ∃ e ∈ entries, e.hasBothMasks = true) :
    ∀ index, ∃ error, convertEntries index entries = .error error := by
  induction entries with
  | nil => simp at h
  | cons e entries ih =>
    intro index
    unfold convertEntries
    rw [convertEntry_eq]
    by_cases hboth : e.hasBothMasks = true
    · exact ⟨⟨index⟩, by simp [hboth, bind, Except.bind]⟩
    · obtain ⟨error, herror⟩ := ih (by simpa [hboth] using h) (index + 1)
      exact ⟨error, by simp [hboth, herror, bind, Except.bind]⟩

theorem convertEntries_of_not_both {entries : List Value}
    (h : ∀ e ∈ entries, e.hasBothMasks = false) : ∀ index, convertEntries index entries =
      .ok (entries.map convertedEntry, entries.countP fun e => e.hasKey patternKey) := by
  induction entries with
  | nil => exact fun _ => rfl
  | cons e entries ih =>
    intro index
    rw [List.forall_mem_cons] at h
    rw [convertEntries, convertEntry_eq, h.1, ih h.2 (index + 1)]
    simp [bind, Except.bind, pure, Except.pure, List.countP_cons, Nat.add_comm]

/-- **The conversion** fails on an entry with both keys, and converts and counts the masks
otherwise. -/
theorem convertPatterns_eq (root : ObjectMap) :
    ((∃ e ∈ overridesOf root, e.hasBothMasks = true) →
      ∃ error, convertPatterns root = .error error) ∧
    ((∀ e ∈ overridesOf root, e.hasBothMasks = false) → convertPatterns root =
      .ok (converted root, (overridesOf root).countP fun e => e.hasKey patternKey)) := by
  unfold overridesOf convertPatterns converted
  cases root.get dnsServerKey with
  | none => simp
  | some value =>
    cases value with
    | text _ | scalar _ | array _ => simp
    | object dnsServer =>
      cases hget : ObjectMap.get dnsServer overridesKey with
      | none => simp [hget]
      | some value =>
        cases value with
        | text _ | scalar _ | object _ => simp [hget]
        | array overrides =>
          simp only [hget]
          constructor
          · intro hboth
            obtain ⟨error, herror⟩ := convertEntries_of_both hboth 0
            exact ⟨error, by simp [herror, bind, Except.bind]⟩
          · intro hnot
            rw [convertEntries_of_not_both hnot 0]
            rfl

end ConfigLayout
