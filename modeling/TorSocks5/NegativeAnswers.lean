/-
**Normalized negative answers and the cache policy.**

Before a response is sent, the SOA records that cover a negative answer have their TTLs brought down
to the negative TTL.  The cache policy applies the same rule when it computes how long the packet
may live.  The two agree: normalizing a packet does not change its lifetime, and no record of the
normalized packet has a shorter TTL.
-/

import Mathlib
import TorSocks5.DnsMessage
import TorSocks5.Pairing

set_option autoImplicit false

namespace DnsServer

variable {X : Type} {query : Query} {message : Message X}

/-! ### One record -/

/-- An SOA record of the class of the question whose zone has the end of the chain. -/
def Covers (query : Query) (terminal : Name) (record : Record X) : Prop :=
  record.dnsClass = query.queryClass ∧ record.name.zoneOf terminal = true ∧
    ∃ minimum rest, record.data = .soa minimum rest

/-- A record is left alone, or is a covering SOA whose TTL is brought down to its minimum. -/
theorem normalizeRecord_cases (query : Query) (terminal : Name) (record : Record X) :
    (∃ minimum rest, Covers query terminal record ∧ record.data = .soa minimum rest ∧
      normalizeRecord query terminal record = { record with ttl := min record.ttl minimum } ∧
      negativeTtl query terminal record = some ((min record.ttl minimum : U32) : ℕ)) ∨
    normalizeRecord query terminal record = record ∧ negativeTtl query terminal record = none := by
  unfold normalizeRecord negativeTtl
  split_ifs with hcovers
  · rw [Bool.and_eq_true, decide_eq_true_eq] at hcovers
    cases hdata : record.data with
    | soa minimum rest =>
      exact .inl ⟨minimum, rest, ⟨hcovers.1, hcovers.2, minimum, rest, hdata⟩, rfl, rfl, rfl⟩
    | _ => exact .inr ⟨rfl, rfl⟩
  · exact .inr ⟨rfl, rfl⟩

theorem normalizeRecord_of_covers {terminal : Name} (record : Record X) {minimum : U32} {rest : X}
    (hcovers : Covers query terminal record) (hdata : record.data = .soa minimum rest) :
    normalizeRecord query terminal record = { record with ttl := min record.ttl minimum } ∧
      negativeTtl query terminal record = some ((min record.ttl minimum : U32) : ℕ) := by
  rw [normalizeRecord, negativeTtl, if_pos, if_pos, hdata]
  · exact ⟨rfl, rfl⟩
  all_goals simp [hcovers.1, hcovers.2.1]

/-- Normalizing a record again changes nothing, and it keeps its negative TTL. -/
theorem normalizeRecord_again (query : Query) (terminal : Name) (record : Record X) :
    normalizeRecord query terminal (normalizeRecord query terminal record) =
        normalizeRecord query terminal record ∧
      negativeTtl query terminal (normalizeRecord query terminal record) =
        negativeTtl query terminal record := by
  rcases normalizeRecord_cases query terminal record with
    ⟨minimum, rest, hcovers, hdata, hrecord, hnegative⟩ | ⟨hrecord, -⟩
  · obtain ⟨hagain, hkept⟩ := normalizeRecord_of_covers
      { record with ttl := min record.ttl minimum } hcovers hdata
    rw [min_assoc, min_self] at hagain hkept
    rw [hrecord, hnegative]
    exact ⟨hagain, hkept⟩
  · rw [hrecord]
    exact ⟨hrecord, rfl⟩

theorem normalizeRecord_ttl_le (terminal : Name) (record : Record X) :
    (normalizeRecord query terminal record).ttl ≤ record.ttl := by
  rcases normalizeRecord_cases query terminal record with
    ⟨minimum, rest, -, -, hrecord, -⟩ | ⟨hrecord, -⟩ <;> rw [hrecord]
  exact min_le_left _ _

/-! ### Messages -/

/-- The message is a negative answer that ends at a name. -/
def NegativeAt (query : Query) (message : Message X) (terminal : Name) : Prop :=
  message.truncation = false ∧ message.signature = false ∧
    (message.responseCode = .noError ∨ message.responseCode = .nxDomain) ∧
    terminalAnswer query message.answers = some (terminal, false)

theorem normalize_of_negativeAt {terminal : Name} (h : NegativeAt query message terminal) :
    normalizeNegativeSoaTtl query message =
      { message with authorities := message.authorities.map (normalizeRecord query terminal) } := by
  obtain ⟨htruncation, hsignature, hcode, hterminal⟩ := h
  unfold normalizeNegativeSoaTtl
  rw [if_neg, hterminal]
  rcases hcode with hcode | hcode <;> simp [htruncation, hsignature, hcode]

theorem normalize_of_not_negativeAt (h : ∀ terminal, ¬ NegativeAt query message terminal) :
    normalizeNegativeSoaTtl query message = message := by
  unfold normalizeNegativeSoaTtl
  split_ifs with hheader
  · rfl
  · split
    · next terminal hterminal =>
      simp only [Bool.or_eq_true, Bool.not_eq_true', Bool.or_eq_false_iff, decide_eq_false_iff_not,
        not_or, Bool.not_eq_true, not_and_or, not_not] at hheader
      exact absurd ⟨hheader.1.1, hheader.1.2, hheader.2, hterminal⟩ (h terminal)
    · rfl

theorem normalize_cases (query : Query) (message : Message X) :
    (∃ terminal, NegativeAt query message terminal ∧ normalizeNegativeSoaTtl query message =
      { message with authorities := message.authorities.map (normalizeRecord query terminal) }) ∨
    normalizeNegativeSoaTtl query message = message := by
  by_cases h : ∃ terminal, NegativeAt query message terminal
  · exact .inl (h.imp fun terminal hnegative => ⟨hnegative, normalize_of_negativeAt hnegative⟩)
  · exact .inr (normalize_of_not_negativeAt (not_exists.1 h))

/-- The TTLs of the normalized records are not longer, and not below a bound of the negative TTLs.
-/
theorem ordinaryTtls_normalize {terminal : Name} {n : ℕ}
    (hn : ∀ r ∈ message.authorities, ∀ m, negativeTtl query terminal r = some m → n ≤ m) :
    List.Forall₂ (fun a a' => a' ≤ a ∧ (a' = a ∨ n ≤ a')) (ordinaryTtls message)
      (ordinaryTtls
        { message with authorities := message.authorities.map (normalizeRecord query terminal) })
    := by
  have hsame : ∀ l : List (Record X), List.Forall₂ (fun a a' => a' ≤ a ∧ (a' = a ∨ n ≤ a'))
      ((l.filter fun r => r.recordType ≠ .opt).map fun r => (r.ttl : ℕ))
      ((l.filter fun r => r.recordType ≠ .opt).map fun r => (r.ttl : ℕ)) :=
    fun l => List.forall₂_same.2 fun a _ => ⟨le_rfl, .inl rfl⟩
  simp only [ordinaryTtls, Message.records, List.filter_append, List.map_append]
  refine List.rel_append (List.rel_append (hsame _) ?_) (hsame _)
  simp only [List.filter_map, Function.comp_def, recordType_normalizeRecord, List.map_map,
    List.forall₂_map_left_iff, List.forall₂_map_right_iff, List.forall₂_same]
  intro r hr
  refine ⟨normalizeRecord_ttl_le terminal r, ?_⟩
  rcases normalizeRecord_ttl query terminal r with hnegative | hrecord
  · exact .inr (hn r (List.mem_of_mem_filter hr) _ hnegative)
  · exact .inl (by rw [hrecord])

theorem negativeBound_eq_some {terminal : Name} {authorities : List (Record X)} {bound : Option ℕ}
    (h : negativeBound query terminal false authorities = some bound) :
    ∃ n, bound = some n ∧ ∀ r ∈ authorities, ∀ m, negativeTtl query terminal r = some m →
      n ≤ m := by
  simp only [negativeBound, Bool.false_eq_true, if_false, Option.map_eq_some_iff] at h
  obtain ⟨n, hmin, rfl⟩ := h
  refine ⟨n, rfl, fun r hr m hm => ?_⟩
  exact (List.min?_eq_some_iff.1 hmin).2 m (List.mem_filterMap.2 ⟨r, hr, hm⟩)

/-- **Normalizing a packet does not change its lifetime.** -/
theorem cacheTtl_normalize (query : Query) (message : Message X) :
    cacheTtl query (normalizeNegativeSoaTtl query message) = cacheTtl query message := by
  rcases normalize_cases query message with ⟨terminal, ⟨-, -, -, hterminal⟩, heq⟩ | heq
  · rw [heq]
    have hkept : ∀ r : Record X, negativeTtl query terminal (normalizeRecord query terminal r) =
        negativeTtl query terminal r := fun r => (normalizeRecord_again query terminal r).2
    have hnegative : negativeBound query terminal false
        (message.authorities.map (normalizeRecord query terminal)) =
          negativeBound query terminal false message.authorities := by
      simp only [negativeBound, List.filterMap_map, Function.comp_def, hkept]
    unfold cacheTtl
    simp only [hterminal, Option.bind_eq_bind, Option.bind_some, hnegative]
    cases hbound : negativeBound query terminal false message.authorities with
    | none => rfl
    | some bound =>
      -- the bound of the SOA records cuts off what the normalization changes
      obtain ⟨n, rfl, hn⟩ := negativeBound_eq_some hbound
      have hcut := congrArg (fun o => Option.bind o fun ttl : ℕ =>
        Option.bind (guard (ttl ≠ 0)) fun _ => pure (ttl * second))
        (Pairing.min?_map_min (ordinaryTtls_normalize hn))
      simp only [Option.bind_map, Function.comp_def] at hcut
      simp only [Option.bind_some, Option.elim_some]
      congr! 6
  · rw [heq]

/-- Normalizing agrees with the cache policy.  It changes nothing but the TTLs of SOA records in the
authority section that cover the end of a negative answer, makes no TTL longer, and done twice it is
done once; the lifetime of the packet stays, and every record but OPT lives as long as that. -/
theorem soa_normalization (query : Query) (message : Message X) :
    let normalized := normalizeNegativeSoaTtl query message
    normalized = { message with authorities := normalized.authorities } ∧
    List.Forall₂ (fun record record' => record' = record ∨
      ∃ ttl ≤ record.ttl, record' = { record with ttl := ttl } ∧
        (message.responseCode = .noError ∨ message.responseCode = .nxDomain) ∧
        ∃ terminal, terminalAnswer query message.answers = some (terminal, false) ∧
          Covers query terminal record) message.authorities normalized.authorities ∧
    normalizeNegativeSoaTtl query normalized = normalized ∧
    cacheTtl query normalized = cacheTtl query message ∧
    ∀ lifetime, cacheTtl query message = some lifetime →
      ∀ record ∈ normalized.records, record.recordType ≠ .opt → lifetime ≤ record.ttl * second := by
  intro normalized
  refine ⟨?_, ?_, ?_, cacheTtl_normalize query message, ?_⟩
  · rcases normalize_cases query message with ⟨terminal, -, heq⟩ | heq
    · simp only [normalized, heq]
    · simp only [normalized, heq]
  · rcases normalize_cases query message with ⟨terminal, hnegative, heq⟩ | heq
    · simp only [normalized, heq]
      rw [List.forall₂_map_right_iff, List.forall₂_same]
      intro record _
      rcases normalizeRecord_cases query terminal record with
        ⟨minimum, rest, hcovers, -, hrecord, -⟩ | ⟨hrecord, -⟩
      · exact .inr ⟨_, min_le_left _ _, hrecord, hnegative.2.2.1, terminal, hnegative.2.2.2,
          hcovers⟩
      · exact .inl hrecord
    · simp only [normalized, heq]
      exact List.forall₂_same.2 fun record _ => .inl rfl
  · rcases normalize_cases query message with ⟨terminal, hnegative, heq⟩ | heq
    · have hagain : NegativeAt query normalized terminal := by
        simp only [normalized, heq]
        exact hnegative
      rw [normalize_of_negativeAt hagain]
      simp only [normalized, heq, List.map_map, Function.comp_def,
        fun r : Record X => (normalizeRecord_again query terminal r).1]
    · simp only [normalized, heq]
  · intro lifetime hlifetime record hrecord hopt
    exact le_normalized_ttl (cacheable_of_cacheTtl hlifetime) (sameQuestion_iff.2 ⟨rfl, rfl, rfl⟩)
      hrecord hopt

end DnsServer
