/-
**The packet cache stays bounded.**

The cache is held to a number of entries and to a number of bytes, and one loop serves both bounds:
as long as the new packet does not fit, the entry that expires soonest goes.  `DnsServer.Evicts`
describes the loop by the entries it evicts; every round removes one of a finite number, so it
ends, and it stops at the first moment at which the packet fits.
-/

import TorSocks5.PacketCache

set_option autoImplicit false

namespace DnsServer

/-! ### The loop -/

/-- A packet of `need` bytes fits. -/
def Fits (need : ℕ) (entries : Entries) : Prop :=
  entries.len < dnsCacheCap ∧ payload entries + need ≤ maxPayload

/-- A run of the eviction loop from some entries to others, and its victims in order. -/
inductive Evicts (need : ℕ) (now : OffsetDateTime) (instant : ℕ) :
    Entries → List ((_ : Query) × Entry) → Entries → Prop
  | done {entries : Entries} : Fits need entries → Evicts need now instant entries [] entries
  | next {entries rest : Entries} {victim : (_ : Query) × Entry}
      {victims : List ((_ : Query) × Entry)} :
      ¬ Fits need entries → victim ∈ entries.entries →
      (∀ b ∈ entries.entries, victim.2.remaining now instant ≤ b.2.remaining now instant) →
      Evicts need now instant (entries.remove victim.1) victims rest →
      Evicts need now instant entries (victim :: victims) rest

section Loop

variable {need instant : ℕ} {now : OffsetDateTime}

theorem fits_iff {entries : Entries} :
    Fits need entries ↔
      ¬ (dnsCacheCap ≤ entries.len ∨ maxPayload < payload entries + need) := by
  unfold Fits
  omega

theorem mem_keys_of_mem {entries : Entries} {b : (_ : Query) × Entry} (h : b ∈ entries.entries) :
    b.1 ∈ entries.keys := by
  rw [Table.mem_keys_iff, Table.mem_entries.1 h]
  rfl

/-- **The loop ends**: a round removes an entry, so one round more than there are entries is
enough. -/
theorem evictLoop_isSome : ∀ {rounds : ℕ} {entries : Entries} (bytes : ℕ), entries.len < rounds →
    (evictLoop need now instant rounds entries bytes).isSome = true := by
  intro rounds
  induction rounds with
  | zero => exact fun bytes h => absurd h (Nat.not_lt_zero _)
  | succ rounds ih =>
    intro entries bytes h
    unfold evictLoop
    split_ifs
    · split
      · rfl
      · next victim hvictim =>
        have hlen := Table.len_remove_of_mem (mem_keys_of_mem (List.argmin_mem hvictim))
        exact ih _ (by omega)
    · rfl

/-- The loop, started on the sum of the packets, is a run of `Evicts`: the running sum stays the sum
of the packets.  The packet fits into an empty cache, so the loop never finds nothing to evict. -/
theorem evictLoop_spec (hneed : need ≤ maxPayload) : ∀ {rounds : ℕ} {entries rest : Entries},
    evictLoop need now instant rounds entries (payload entries) = some rest →
      ∃ victims, Evicts need now instant entries victims rest := by
  intro rounds
  induction rounds with
  | zero => exact fun h => by simp [evictLoop] at h
  | succ rounds ih =>
    intro entries rest h
    unfold evictLoop at h
    by_cases hroom : Fits need entries
    · rw [if_neg (fits_iff.1 hroom)] at h
      cases h
      exact ⟨[], .done hroom⟩
    · rw [if_pos (not_not.1 (fits_iff.not.1 hroom))] at h
      split at h
      · next hnone =>
        have hnil : entries.entries = [] := List.argmin_eq_none.1 hnone
        simp [Fits, Table.len, payload, Table.sum, hnil, dnsCacheCap, hneed] at hroom
      · next victim hvictim =>
        have hmem := List.argmin_mem hvictim
        have hsum : payload (entries.remove victim.1) + victim.2.packet.length =
            payload entries := Table.sum_remove (Table.mem_entries.1 hmem) _
        rw [← hsum, Nat.add_sub_cancel] at h
        obtain ⟨victims, hev⟩ := ih h
        exact ⟨victim :: victims, .next hroom hmem
          (fun b hb => not_lt.1 (List.not_lt_of_mem_argmin hb hvictim)) hev⟩

theorem evict_spec (hneed : need ≤ maxPayload) (now : OffsetDateTime) (instant : ℕ)
    (entries : Entries) :
    ∃ victims, Evicts need now instant entries victims (evict need now instant entries) := by
  obtain ⟨rest, hrest⟩ := Option.isSome_iff_exists.1
    (evictLoop_isSome (payload entries) (Nat.lt_succ_self entries.len))
  rw [evict, hrest]
  exact evictLoop_spec hneed hrest

namespace Evicts

variable {entries rest : Entries} {victims : List ((_ : Query) × Entry)}

theorem fits (h : Evicts need now instant entries victims rest) : Fits need rest := by
  induction h with
  | done hfits => exact hfits
  | next _ _ _ _ ih => exact ih

theorem rest_eq (h : Evicts need now instant entries victims rest) :
    rest = entries.removeAll (victims.map (·.1)) := by
  induction h with
  | done => rfl
  | next _ _ _ _ ih => exact ih

theorem mem (h : Evicts need now instant entries victims rest) :
    ∀ v ∈ victims, v ∈ entries.entries := by
  induction h with
  | done => simp
  | next _ hmem _ _ ih =>
    refine List.forall_mem_cons.2 ⟨hmem, fun v hv => ?_⟩
    exact Table.mem_entries.2 (Table.get_of_get_remove (Table.mem_entries.1 (ih v hv)))

theorem sorted (h : Evicts need now instant entries victims rest) :
    victims.Pairwise fun v w => v.2.remaining now instant ≤ w.2.remaining now instant := by
  induction h with
  | done => exact List.Pairwise.nil
  | next _ _ hleast hev ih =>
    refine List.Pairwise.cons (fun w hw => hleast w (Table.mem_entries.2 ?_)) ih
    exact Table.get_of_get_remove (Table.mem_entries.1 (hev.mem w hw))

/-- What is left expires no sooner than any victim. -/
theorem soonest (h : Evicts need now instant entries victims rest) :
    ∀ v ∈ victims, ∀ b ∈ rest.entries,
      v.2.remaining now instant ≤ b.2.remaining now instant := by
  induction h with
  | done => simp
  | @next entries rest victim victims _ _ hleast hev ih =>
    refine List.forall_mem_cons.2 ⟨fun b hb => hleast b (Table.mem_entries.2 ?_), ih⟩
    have hget := Table.mem_entries.1 hb
    rw [hev.rest_eq, Table.get_removeAll] at hget
    split_ifs at hget
    exact Table.get_of_get_remove hget

theorem needed (h : Evicts need now instant entries victims rest) :
    ∀ n < victims.length, ¬ Fits need (entries.removeAll ((victims.take n).map (·.1))) := by
  induction h with
  | done => exact fun n hn => by simp at hn
  | next hfull _ _ _ ih =>
    intro n hn
    cases n with
    | zero => exact hfull
    | succ n => exact ih n (by simpa using hn)

end Evicts

end Loop

/-! ### The two bounds -/

/-- The two bounds. -/
def Within (entries : Entries) : Prop :=
  entries.len ≤ dnsCacheCap ∧ payload entries ≤ maxPayload

theorem within_empty : Within ∅ := ⟨by simp [dnsCacheCap], by simp [payload, Table.sum]⟩

variable {entries : Entries} {k : Query}
theorem within_retain (h : Within entries) (p : Query → Entry → Bool) : Within (entries.retain p) :=
  ⟨(Table.len_retain_le entries p).trans h.1, (Table.sum_retain_le entries p _).trans h.2⟩

theorem within_remove (h : Within entries) (k : Query) : Within (entries.remove k) :=
  ⟨(Table.len_remove_le entries k).trans h.1, (Table.sum_remove_le entries k _).trans h.2⟩

theorem within_dropQuestion (h : Within entries) (query : Query) :
    Within (dropQuestion entries query) := by
  unfold dropQuestion
  split
  · exact within_remove h query
  · exact within_retain h _

/-- An admission is within the bounds, whatever it starts from: the loop has made room. -/
theorem within_admit (entries : Entries) (key : Query) {entry : Entry}
    (hlen : entry.packet.length ≤ maxPacket) (now : OffsetDateTime) (instant : ℕ) :
    Within (admitEntry entries key entry now instant) := by
  obtain ⟨victims, hev⟩ :=
    evict_spec (hlen.trans (by decide)) now instant (makeRoom entries key now instant)
  obtain ⟨hcap, hbytes⟩ := hev.fits
  unfold admitEntry
  refine ⟨(Table.len_insert_le _ key entry).trans hcap, ?_⟩
  unfold payload at hbytes ⊢
  rw [Table.sum_insert]
  exact (Nat.add_le_add_right (Table.sum_remove_le _ key _) _).trans hbytes

/-- An entry that takes the place of one with the same packet. -/
theorem within_replace (h : Within entries) {old new : Entry}
    (hget : entries.get k = some old) (hpacket : new.packet = old.packet) :
    Within (entries.insert k new) := by
  have hlen := Table.len_remove_of_mem (Table.mem_keys_iff.2 (by rw [hget]; rfl))
  have hrem := Table.sum_remove hget fun e : Entry => e.packet.length
  obtain ⟨hcap, hbytes⟩ := h
  unfold Within payload at *
  rw [Table.len_insert, Table.sum_insert, hpacket]
  omega

section Runs

variable {X : Type} {lib : Library X}

theorem within_getAt (h : Within entries) (query : Query)
    (now : OffsetDateTime) (instant : ℕ) : Within (getAt lib entries query now instant).2 := by
  unfold getAt
  split
  · exact h
  · next key entry hfind =>
    split_ifs
    · exact within_dropQuestion h query
    · exact within_replace h (find_spec hfind).1 rfl

theorem within_decodeFrames {now : OffsetDateTime} {instant : ℕ} :
    ∀ {frames : ℕ} {data : List UInt8} {entries : Entries}, Within entries →
      Within (decodeFrames lib now instant frames data entries) := by
  intro frames
  induction frames with
  | zero => exact id
  | succ frames ih =>
    intro data entries h
    unfold decodeFrames
    split
    · exact h
    · refine ih ?_
      split
      · exact h
      · next key entry hentry =>
        exact within_admit entries key (sound_of_frameEntry hentry).packet_le now instant

theorem within_load (file : Option (List UInt8)) (now : OffsetDateTime) (instant : ℕ) :
    Within (load lib file now instant) := by
  unfold load
  split
  · exact within_empty
  · unfold decode
    split_ifs
    · exact within_empty
    · exact within_decodeFrames within_empty

variable [DecidableEq X]

theorem within_insertAt (h : Within entries) (query : Query)
    (answer : ResolvedAnswer X) (now : OffsetDateTime) (instant : ℕ) :
    Within (insertAt lib entries query answer now instant) := by
  unfold insertAt
  split
  · exact h
  · next entry hadm =>
    exact within_admit entries _ (sound_of_admission hadm).packet_le now instant

theorem within_step {s t : State X} {a : Action X} (h : Within s.entries)
    (hstep : step lib s a = some t) : Within t.entries := by
  cases a with
  | rehash entries =>
    simp only [step] at hstep
    split_ifs at hstep with hperm
    cases hstep
    exact ⟨(Table.len_of_perm hperm).trans_le h.1,
      (Table.sum_of_perm hperm fun e : Entry => e.packet.length).trans_le h.2⟩
  | insert query answer now instant => cases hstep; exact within_insertAt h query answer now instant
  | get query now instant => cases hstep; exact within_getAt h query now instant
  | save now instant => cases hstep; exact within_retain h _
  | load file now instant => cases hstep; exact within_load file now instant

/-! ### The whole cache -/

/-- The bounds of a cache, and its keys. -/
structure Bounded (entries : Entries) : Prop where
  len_le : entries.len ≤ dnsCacheCap
  payload_le : payload entries ≤ maxPayload
  fqdn : ∀ k ∈ entries.keys, k.name.fqdn = true
  distinct : entries.keys.Pairwise fun k k' => sameQuestion k k' = false

/-- What the admission of an entry does to the entries of other questions. -/
structure Eviction (before : Entries) (key : Query) (entry : Entry) (now : OffsetDateTime)
    (instant : ℕ) (victims : List ((_ : Query) × Entry)) (after : Entries) : Prop where
  /-- The victims were in the cache, had not expired and answer other questions. -/
  others : ∀ v ∈ victims, before.get v.1 = some v.2 ∧ unexpired now instant v.2 = true ∧
    sameQuestion v.1 key = false
  /-- Whatever else had not expired is still there. -/
  stays : ∀ k e, before.get k = some e → unexpired now instant e = true →
    sameQuestion k key = false → ⟨k, e⟩ ∉ victims → after.get k = some e
  /-- The victims go in the order in which they expire, -/
  sorted : victims.Pairwise fun v w => v.2.remaining now instant ≤ w.2.remaining now instant
  /-- before everything that stays. -/
  soonest : ∀ v ∈ victims, ∀ k e, after.get k = some e → k ≠ key →
    v.2.remaining now instant ≤ e.remaining now instant
  /-- As long as one of them has not gone, a bound would be exceeded. -/
  needed : ∀ n < victims.length, ¬ Fits entry.packet.length
    ((makeRoom before key now instant).removeAll ((victims.take n).map (·.1)))
  admitted : after.get key = some entry

theorem sameQuestion_of_fqdn {k' : Query} (hk : k.name.fqdn = true) (hk' : k'.name.fqdn = true)
    (hne : k ≠ k') : sameQuestion k k' = false := by
  refine Bool.eq_false_iff.2 fun hsame => hne ?_
  rw [← admittedQuery_of_fqdn hk, ← admittedQuery_of_fqdn hk', admittedQuery_eq hsame]

omit [DecidableEq X] in
theorem fqdn_of_sound {e : Entry} (h : Sound lib k e) : k.name.fqdn = true := by
  obtain ⟨-, query, -, -, hkey, -⟩ := h.message
  rw [hkey]
  rfl

theorem bounded_of_run {ok : State X → Action X → Prop} {as : List (Action X)} {s : State X}
    (h : (machine lib).Run ok .init as s) : Bounded s.entries := by
  obtain ⟨hlen, hbytes⟩ : Within s.entries :=
    h.invariant (I := fun s => Within s.entries)
      (fun _ _ _ hs _ hstep => within_step hs hstep) within_empty
  have hfqdn : ∀ k ∈ s.entries.keys, k.name.fqdn = true := by
    intro k hk
    obtain ⟨e, he⟩ := Option.isSome_iff_exists.1 (Table.mem_keys_iff.1 hk)
    exact fqdn_of_sound (sound_of_run h k e he)
  exact ⟨hlen, hbytes, hfqdn, s.entries.keys_nodup.imp_of_mem fun hk hk' hne =>
    sameQuestion_of_fqdn (hfqdn _ hk) (hfqdn _ hk') hne⟩

omit [DecidableEq X] in
/-- An admission into a cache of fully qualified keys. -/
theorem exists_eviction {before : Entries} {key : Query} {entry : Entry}
    (hfqdn : ∀ k ∈ before.keys, k.name.fqdn = true) (hkey : key.name.fqdn = true)
    (hlen : entry.packet.length ≤ maxPacket) (now : OffsetDateTime) (instant : ℕ) :
    ∃ victims, Eviction before key entry now instant victims
      (admitEntry before key entry now instant) := by
  obtain ⟨victims, hev⟩ :=
    evict_spec (hlen.trans (by decide)) now instant (makeRoom before key now instant)
  refine ⟨victims, ?_, ?_, hev.sorted, ?_, hev.needed, Table.get_insert_self _ key entry⟩
  · intro v hv
    have hget := Table.mem_entries.1 (hev.mem v hv)
    have hne : v.1 ≠ key := fun heq => by simp [makeRoom, heq] at hget
    obtain ⟨hold, hun⟩ := Table.get_of_get_retain (Table.get_of_get_remove hget)
    have hmem := hfqdn v.1 (mem_keys_of_mem (Table.mem_entries.2 hold))
    exact ⟨hold, hun, sameQuestion_of_fqdn hmem hkey hne⟩
  · intro k e hget hun hother hnot
    have hne : k ≠ key := by
      rintro rfl
      simp [sameQuestion, Name.eqIgnoreRoot] at hother
    have hroom : (makeRoom before key now instant).get k = some e := by
      rw [makeRoom, Table.get_remove_of_ne _ hne, Table.get_retain, hget]
      simp [hun]
    rw [admitEntry, Table.get_insert_of_ne _ hne, hev.rest_eq, Table.get_removeAll, if_neg, hroom]
    intro hmem
    obtain ⟨v, hv, rfl⟩ := List.mem_map.1 hmem
    cases Option.some.inj ((Table.mem_entries.1 (hev.mem v hv)).symm.trans hroom)
    exact hnot hv
  · intro v hv k e hget hne
    rw [admitEntry, Table.get_insert_of_ne _ hne] at hget
    exact hev.soonest v hv ⟨k, e⟩ (Table.mem_entries.2 hget)

/-- **The cache stays bounded.**  After every run the bounds hold, the keys are fully qualified and
no two ask the same; the eviction loop ends from any entries; and an insertion evicts what expires
soonest, and only as much as the bounds ask for. -/
theorem cache_stays_bounded {as : List (Action X)} {s : State X}
    (h : (machine lib).Run Machine.anyStep .init as s) :
    Bounded s.entries ∧
      (∀ need now instant entries,
        (evictLoop need now instant (entries.len + 1) entries (payload entries)).isSome = true) ∧
      ∀ query answer now instant,
        (admission lib query answer now instant = none ∧
          insertAt lib s.entries query answer now instant = s.entries) ∨
        ∃ entry victims, admission lib query answer now instant = some entry ∧
          Eviction s.entries (admittedQuery query) entry now instant victims
            (insertAt lib s.entries query answer now instant) := by
  have hbounded := bounded_of_run h
  refine ⟨hbounded, ?_, ?_⟩
  · intro need now instant entries
    exact evictLoop_isSome _ (Nat.lt_succ_self entries.len)
  · intro query answer now instant
    unfold insertAt
    cases hadm : admission lib query answer now instant with
    | none => exact .inl ⟨rfl, rfl⟩
    | some entry =>
      have hkey : (admittedQuery query).name.fqdn = true := rfl
      obtain ⟨victims, hev⟩ := exists_eviction hbounded.fqdn hkey
        (sound_of_admission hadm).packet_le now instant
      exact .inr ⟨entry, victims, rfl, hev⟩

theorem cache_stays_bounded_sampleRun :
    ((machine sampleLibrary).after .init sampleRun).entries.len = 1 ∧
      Bounded ((machine sampleLibrary).after .init sampleRun).entries := by
  have hrun : (machine sampleLibrary).Run Machine.anyStep .init sampleRun
      ((machine sampleLibrary).after .init sampleRun) := Machine.Run.of_exec rfl
  exact ⟨by decide +kernel, (cache_stays_bounded hrun).1⟩

end Runs

end DnsServer
