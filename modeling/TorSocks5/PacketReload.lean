/-
**Saving and loading do not give an answer more time.**

A file keeps the stamp of an entry and a lifetime counted from it; a load knows the age of the entry
from the wall clock alone.  What a cycle of saving and loading preserves is a *deadline*: the time
the entry has left, counted from the wall-clock time or from its stamp, whichever is later.  The
stamp comes in because a clock that stands before it says nothing about the age: an entry saved then
loses nothing until the clock has passed the stamp, as `DnsServer.early_save_stops_the_clock` shows.
-/

import TorSocks5.PacketCache

set_option autoImplicit false

namespace DnsServer

variable {X : Type}

/-! ### Frames -/

/-- The frame that is written for an entry. -/
def frameOf (entry : Entry) : Frame :=
  ⟨entry.resolvedAt.nanos, entry.ttl / second, entry.ttl % second, entry.packet⟩

variable {entry : Entry} {lib : Library X} {now saved loaded : OffsetDateTime}
  {instant savedInstant loadedInstant : ℕ} {s t : State X}
/-- A frame is read back, whatever follows it. -/
theorem readFrame_encodeFrame (hpacket : entry.packet.length < 2 ^ 32)
    (httl : entry.ttl / second < 2 ^ 64) (rest : List UInt8) :
    readFrame (encodeFrame entry ++ rest) = some (frameOf entry, rest) := by
  have hlower := entry.resolvedAt.lower
  have hupper := entry.resolvedAt.upper
  have hstamp : BigEndian.decodeSigned (BigEndian.encodeSigned 16 entry.resolvedAt.nanos) =
      entry.resolvedAt.nanos :=
    BigEndian.decodeSigned_encodeSigned (by norm_num; omega) (by norm_num; omega)
  have hseconds : BigEndian.decode (BigEndian.encode 8 (entry.ttl / second)) =
      entry.ttl / second := BigEndian.decode_encode (by norm_num at httl ⊢; omega)
  have hsub : entry.ttl % second < 1000000000 := Nat.mod_lt _ (by decide)
  have hnanos : BigEndian.decode (BigEndian.encode 4 (entry.ttl % second)) =
      entry.ttl % second := BigEndian.decode_encode (by norm_num; omega)
  have hlength : BigEndian.decode (BigEndian.encode 4 entry.packet.length) =
      entry.packet.length := BigEndian.decode_encode (by norm_num at hpacket ⊢; omega)
  simp only [readFrame, encodeFrame, List.append_assoc, Option.bind_eq_bind,
    BigEndian.split_append (BigEndian.length_encodeSigned _ _),
    BigEndian.split_append (BigEndian.length_encode _ _), Option.bind_some, hlength,
    BigEndian.split_append rfl, hstamp, hseconds, hnanos]
  rfl

/-- A property that every frame of some entries gives, and that the table has, holds of what is read
from the file of these entries. -/
theorem get_decodeFrames_encode
    {P : Query → Entry → Prop} : ∀ {es : List Entry} {frames : ℕ} {entries : Entries},
    (∀ e ∈ es, e.packet.length < 2 ^ 32 ∧ e.ttl / second < 2 ^ 64) →
    (∀ e ∈ es, ∀ k e', frameEntry lib (frameOf e) now instant = some (k, e') → P k e') →
    (∀ k e, entries.get k = some e → P k e) →
      ∀ k e, (decodeFrames lib now instant frames (es.flatMap encodeFrame) entries).get k =
        some e → P k e := by
  intro es
  induction es with
  | nil =>
    intro frames entries _ _ hall
    cases frames <;> exact hall
  | cons first es ih =>
    intro frames entries hfits hframe hall
    cases frames with
    | zero => exact hall
    | succ frames =>
      rw [List.forall_mem_cons] at hfits hframe
      rw [List.flatMap_cons, decodeFrames, readFrame_encodeFrame hfits.1.1 hfits.1.2]
      refine ih hfits.2 hframe.2 ?_
      split
      · exact hall
      · next key entry hentry =>
        intro k e hget
        rcases get_admit hget with ⟨rfl, rfl⟩ | ⟨-, hold, -⟩
        · exact hframe.1 _ _ hentry
        · exact hall k e hold

/-! ### Deadlines -/

/-- The time an entry has left, counted from the wall-clock time or from its stamp, whichever is
later. -/
def Entry.deadline (entry : Entry) (now : OffsetDateTime) (instant : ℕ) : ℤ :=
  entry.remaining now instant + max now.nanos entry.resolvedAt.nanos

theorem wallAge_getD (stamp now : OffsetDateTime) :
    ((wallAge stamp now).getD 0 : ℤ) = max now.nanos stamp.nanos - stamp.nanos := by
  unfold wallAge
  split
  · simp only [Option.getD_some]
    omega
  · simp only [Option.getD_none]
    omega

theorem snapshot_ttl_le (entry : Entry) (now : OffsetDateTime) (instant : ℕ) :
    ((entry.snapshot now instant).ttl : ℤ) + entry.resolvedAt.nanos ≤
      entry.deadline now instant := by
  have hwall := wallAge_getD entry.resolvedAt now
  have hmin : (entry.snapshot now instant).ttl ≤
      entry.remaining now instant + (wallAge entry.resolvedAt now).getD 0 := min_le_right _ _
  unfold Entry.deadline
  omega

/-- A loaded entry: its age by the wall clock is the base of its age, and the stamp has passed. -/
structure Loaded (entry : Entry) (now : OffsetDateTime) (instant : ℕ) : Prop where
  age : wallAge entry.resolvedAt now = some entry.initialAge
  admitted : entry.admitted = instant
  lives : entry.initialAge < entry.ttl

theorem deadline_of_loaded (h : Loaded entry now instant) :
    entry.deadline now instant = entry.ttl + entry.resolvedAt.nanos := by
  have hwall := wallAge_getD entry.resolvedAt now
  have hlives := h.lives
  have hadm := h.admitted
  rw [h.age, Option.getD_some] at hwall
  simp only [Entry.deadline, Entry.remaining, Entry.age, h.age, Option.getD_some]
  omega

/-- An entry that descends from another by being read: the same packet and stamp, and no younger at
any monotonic reading. -/
structure Descends (old entry : Entry) : Prop where
  packet : entry.packet = old.packet
  ttl : entry.ttl = old.ttl
  resolvedAt : entry.resolvedAt = old.resolvedAt
  base : ∀ i, old.initialAge + (i - old.admitted) ≤ entry.initialAge + (i - entry.admitted)

theorem descends_refl (entry : Entry) : Descends entry entry :=
  ⟨rfl, rfl, rfl, fun _ => le_refl _⟩

theorem descends_refresh {old : Entry} (h : Descends old entry) (now : OffsetDateTime)
    (instant : ℕ) : Descends old (entry.refresh now instant) := by
  refine ⟨h.packet, h.ttl, h.resolvedAt, fun i => ?_⟩
  have hbase := h.base i
  have hage : entry.initialAge + (instant - entry.admitted) ≤ entry.age now instant :=
    le_max_left _ _
  simp only [Entry.refresh]
  omega

/-- Whatever the clocks do, what descends from a loaded entry keeps to its deadline. -/
theorem deadline_of_descends {old : Entry} (h : Descends old entry)
    (hloaded : Loaded old now instant) (now' : OffsetDateTime) (instant' : ℕ)
    (hlives : entry.remaining now' instant' ≠ 0) :
    entry.deadline now' instant' ≤ old.deadline now instant := by
  rw [deadline_of_loaded hloaded]
  have hwall := wallAge_getD old.resolvedAt now
  have hwall' := wallAge_getD entry.resolvedAt now'
  rw [hloaded.age, Option.getD_some] at hwall
  have hbase := h.base instant'
  have hres := congrArg OffsetDateTime.nanos h.resolvedAt
  have httl := h.ttl
  have hmono : entry.initialAge + (instant' - entry.admitted) ≤ entry.age now' instant' :=
    le_max_left _ _
  have hclock : (wallAge entry.resolvedAt now').getD 0 ≤ entry.age now' instant' :=
    le_max_right _ _
  unfold Entry.deadline
  unfold Entry.remaining at hlives ⊢
  omega

/-! ### One cycle -/

/-- A saving at one time and a load of the file at another. -/
def SaveLoad (lib : Library X) (s : State X) (saved : OffsetDateTime) (savedInstant : ℕ)
    (loaded : OffsetDateTime) (loadedInstant : ℕ) (t : State X) : Prop :=
  ∃ data, encodeFile (save s.entries saved savedInstant).1 = some data ∧
    t = ⟨load lib (some data) loaded loadedInstant, fun _ => none⟩

/-- The frame of a saved entry, when it is loaded. -/
theorem frameEntry_frameOf {key key' : Query} {entry' : Entry} (hsound : Sound lib key entry)
    (h : frameEntry lib (frameOf (entry.snapshot saved savedInstant)) loaded instant =
      some (key', entry')) :
    key' = key ∧ entry'.resolvedAt = entry.resolvedAt ∧ Loaded entry' loaded instant ∧
      entry'.deadline loaded instant ≤ entry.deadline saved savedInstant := by
  obtain ⟨resolvedAt, age, message, query, policy, -, -, hstamp, hage, hdec, hquery, -, hkey, httl,
    hlives, hres, hadm, hinit⟩ := frameEntry_spec h
  obtain rfl : resolvedAt = entry.resolvedAt :=
    Option.some.inj (hstamp.symm.trans (lib.fromUnixTimestampNanos_nanos entry.resolvedAt))
  have hloaded : Loaded entry' loaded instant :=
    ⟨by rw [hres, hage, hinit], hadm, by rwa [hinit]⟩
  refine ⟨?_, hres, hloaded, ?_⟩
  · -- the packet decodes to one message, and it asks the question of the key
    obtain ⟨message', query', policy', hdec', hkey', hcache, -⟩ := hsound.message
    obtain rfl : message' = message := Option.some.inj (hdec'.symm.trans hdec)
    obtain ⟨asked, hqueries, hsame⟩ := hcache.asked
    rw [hqueries] at hquery
    obtain rfl : asked = query := Option.some.inj hquery
    rw [hkey, hkey', admittedQuery_eq hsame]
  · have hle : entry'.ttl ≤ (entry.snapshot saved savedInstant).ttl := by
      rw [httl, ← Nat.div_add_mod' (entry.snapshot saved savedInstant).ttl second]
      exact min_le_left _ _
    have hsnap := snapshot_ttl_le entry saved savedInstant
    rw [deadline_of_loaded hloaded, hres]
    omega

/-- **A loaded entry is one that was saved**, with a deadline no later. -/
theorem get_saveLoad (hsound : AllSound lib s)
    (h : SaveLoad lib s saved savedInstant loaded loadedInstant t) :
    ∀ k e', t.entries.get k = some e' → Loaded e' loaded loadedInstant ∧
      ∃ e, s.entries.get k = some e ∧ e.remaining saved savedInstant ≠ 0 ∧
        e'.resolvedAt = e.resolvedAt ∧
        e'.deadline loaded loadedInstant ≤ e.deadline saved savedInstant := by
  obtain ⟨data, hdata, rfl⟩ := h
  unfold encodeFile at hdata
  split_ifs at hdata with hfits
  cases hdata
  -- every entry that is written is the snapshot of one that is kept
  have hwritten : ∀ e ∈ (save s.entries saved savedInstant).1, ∃ k entry,
      s.entries.get k = some entry ∧ entry.remaining saved savedInstant ≠ 0 ∧
        e = entry.snapshot saved savedInstant := by
    intro e he
    obtain ⟨b, hb, rfl⟩ := List.mem_map.1 he
    obtain ⟨hold, hun⟩ := Table.get_of_get_retain (Table.mem_entries.1 hb)
    exact ⟨b.1, b.2, hold, by simpa [unexpired] using hun, rfl⟩
  unfold load decode
  simp only
  split
  · simp
  · rw [List.drop_left]
    refine get_decodeFrames_encode (fun e he => ⟨hfits e he, ?_⟩) ?_ (by simp)
    · obtain ⟨k, entry, hget, -, rfl⟩ := hwritten e he
      obtain ⟨_, _, policy, -, -, hcache, hpolicy⟩ := (hsound k entry hget).message
      have hsmall := hcache.small
      have hmin : (entry.snapshot saved savedInstant).ttl ≤ entry.ttl := min_le_left _ _
      refine Nat.div_lt_of_lt_mul ?_
      unfold second at hsmall ⊢
      omega
    · intro e he k e' hframe
      obtain ⟨key, entry, hget, hrem, rfl⟩ := hwritten e he
      obtain ⟨rfl, hres, hloaded, hdead⟩ := frameEntry_frameOf (hsound key entry hget) hframe
      exact ⟨hloaded, entry, hget, hrem, hres, hdead⟩

/-! ### Chains of cycles -/

section Chains

variable [DecidableEq X] {lib : Library X} {key : Query}

/-- The operations that leave the answer to a question alone: no load, and no insertion of it. -/
def leavesAlone (key : Query) (_ : State X) : Action X → Prop
  | .load _ _ _ => False
  | .insert query _ _ _ => admittedQuery query ≠ key
  | _ => True

/-- What stands under a key after such operations descends from what stood there. -/
theorem descends_of_run {as : List (Action X)}
    (h : (machine lib).Run (leavesAlone key) s as t) {e : Entry}
    (hget : t.entries.get key = some e) : ∃ old, s.entries.get key = some old ∧ Descends old e := by
  have hinv : AllEntries (fun k e _ => k = key →
      ∃ old, s.entries.get key = some old ∧ Descends old e) t := by
    refine h.invariant (fun u a v hall hok hstep => ?_) ?_
    · refine all_step ?_ ?_ ?_ hall hstep
      · rintro query answer now instant rfl entry - hkey
        exact absurd hkey hok
      · intro k e o now instant hold _ hkey
        exact (hold hkey).imp fun old h => ⟨h.1, descends_refresh h.2 now instant⟩
      · rintro file now instant rfl
        exact hok.elim
    · rintro k old hold rfl
      exact ⟨old, hold, descends_refl old⟩
  exact hinv key e hget rfl

/-- A chain of cycles from a saving to a load, with operations between them that leave the answer to
a question alone. -/
inductive Reloads (lib : Library X) (key : Query) (s : State X) (saved : OffsetDateTime)
    (savedInstant : ℕ) : State X → OffsetDateTime → ℕ → Prop
  | one {t : State X} {loaded : OffsetDateTime} {loadedInstant : ℕ} :
      SaveLoad lib s saved savedInstant loaded loadedInstant t →
      Reloads lib key s saved savedInstant t loaded loadedInstant
  | more {t u v : State X} {loaded saved' loaded' : OffsetDateTime}
      {loadedInstant savedInstant' loadedInstant' : ℕ} {as : List (Action X)} :
      Reloads lib key s saved savedInstant t loaded loadedInstant →
      (machine lib).Run (leavesAlone key) t as u →
      SaveLoad lib u saved' savedInstant' loaded' loadedInstant' v →
      Reloads lib key s saved savedInstant v loaded' loadedInstant'

omit [DecidableEq X] in
theorem allSound_saveLoad
    (h : SaveLoad lib s saved savedInstant loaded loadedInstant t) : AllSound lib t := by
  obtain ⟨data, -, rfl⟩ := h
  exact get_load fun frame k e hframe => sound_of_frameEntry hframe

theorem allSound_reloads
    (h : Reloads lib key s saved savedInstant t loaded loadedInstant) : AllSound lib t := by
  cases h with
  | one hcycle | more _ _ hcycle => exact allSound_saveLoad hcycle

/-- No chain moves the deadline of an answer. -/
theorem deadline_of_reloads (hsound : AllSound lib s)
    (h : Reloads lib key s saved savedInstant t loaded loadedInstant) :
    ∀ e', t.entries.get key = some e' → Loaded e' loaded loadedInstant ∧
      ∃ e, s.entries.get key = some e ∧ e.remaining saved savedInstant ≠ 0 ∧
        e'.resolvedAt = e.resolvedAt ∧
        e'.deadline loaded loadedInstant ≤ e.deadline saved savedInstant := by
  induction h with
  | one hcycle => exact get_saveLoad hsound hcycle key
  | more hchain hrun hcycle ih =>
    intro e' hget
    have hsound' := allSound_run hrun (allSound_reloads hchain)
    obtain ⟨hloaded', mid, hmid, hlives, hres', hdead'⟩ := get_saveLoad hsound' hcycle key e' hget
    obtain ⟨old, hold, hdesc⟩ := descends_of_run hrun hmid
    obtain ⟨hloaded, e, he, hrem, hres, hdead⟩ := ih old hold
    have hkeep := deadline_of_descends hdesc hloaded _ _ hlives
    refine ⟨hloaded', e, he, hrem, ?_, hdead'.trans (hkeep.trans hdead)⟩
    rw [hres', hdesc.resolvedAt, hres]

/-- **Saving and loading do not give an answer more time.**  From any reachable cache, along any
chain of cycles: an entry that is there after the last load was there at the first saving, and has
at most the time that it had left then, less the time from that saving, or from the stamp of the
entry if that is later, to the load. -/
theorem reload_gives_no_time {as : List (Action X)} {s t : State X} {saved loaded : OffsetDateTime}
    {savedInstant loadedInstant : ℕ} (hrun : (machine lib).Run Machine.anyStep .init as s)
    (h : Reloads lib key s saved savedInstant t loaded loadedInstant) {e' : Entry}
    (hget : t.entries.get key = some e') :
    ∃ e, s.entries.get key = some e ∧ e.remaining saved savedInstant ≠ 0 ∧
      e'.resolvedAt = e.resolvedAt ∧ e.resolvedAt.nanos ≤ loaded.nanos ∧
      (e'.remaining loaded loadedInstant : ℤ) ≤ e.remaining saved savedInstant -
        (loaded.nanos - max saved.nanos e.resolvedAt.nanos) := by
  obtain ⟨hloaded, e, he, hrem, hres, hdead⟩ := deadline_of_reloads (sound_of_run hrun) h e' hget
  have hpast : e'.resolvedAt.nanos ≤ loaded.nanos := by
    by_contra hfuture
    have hage := hloaded.age
    rw [wallAge, if_neg hfuture] at hage
    simp at hage
  rw [hres] at hpast
  refine ⟨e, he, hrem, hres, hpast, ?_⟩
  unfold Entry.deadline at hdead
  rw [hres] at hdead
  omega

end Chains

/-- The answer of `sampleRun`, saved at the thirtieth second and loaded at the fiftieth. -/
def sampleReload : State Unit :=
  let saved := (save ((machine sampleLibrary).after .init sampleRun).entries
    (atSecond ⟨30, by decide⟩) (30 * second)).1
  ⟨load sampleLibrary (encodeFile saved) (atSecond ⟨50, by decide⟩) 0, fun _ => none⟩

theorem reload_gives_no_time_sampleReload :
    ∃ e e', ((machine sampleLibrary).after .init sampleRun).entries.get sampleQuery = some e ∧
      sampleReload.entries.get sampleQuery = some e' ∧
      e.remaining (atSecond 30) (30 * second) = 270 * second ∧
      (e'.remaining (atSecond 50) 0 : ℤ) ≤ 270 * second - 20 * second := by
  have hrun : (machine sampleLibrary).Run Machine.anyStep .init sampleRun
      ((machine sampleLibrary).after .init sampleRun) := Machine.Run.of_exec rfl
  have hget : sampleReload.entries.get sampleQuery =
      some ⟨[0], 300 * second, atSecond 0, 0, 50 * second⟩ := by decide +kernel
  have hfile : (encodeFile (save ((machine sampleLibrary).after .init sampleRun).entries
      (atSecond 30) (30 * second)).1).isSome = true := by decide +kernel
  obtain ⟨data, hdata⟩ := Option.isSome_iff_exists.1 hfile
  have hcycle : SaveLoad sampleLibrary ((machine sampleLibrary).after .init sampleRun)
      (atSecond 30) (30 * second) (atSecond 50) 0 sampleReload := by
    refine ⟨data, hdata, ?_⟩
    rw [← hdata]
    rfl
  obtain ⟨e, he, -, -, -, hle⟩ := reload_gives_no_time hrun (Reloads.one hcycle) hget
  have hold : ((machine sampleLibrary).after .init sampleRun).entries.get sampleQuery =
      some ⟨[0], 300 * second, atSecond 0, 10 * second, 10 * second⟩ := by decide +kernel
  obtain rfl := Option.some.inj (he.symm.trans hold)
  have hleft : (Entry.mk [0] (300 * second) (atSecond 0) (10 * second) (10 * second)).remaining
      (atSecond 30) (30 * second) = 270 * second := by decide +kernel
  have htime : (atSecond 50).nanos - max (atSecond 30).nanos (atSecond 0).nanos = 20 * second := by
    decide +kernel
  refine ⟨_, _, hold, hget, hleft, ?_⟩
  simp only [hleft, htime] at hle
  push_cast at hle
  exact hle

/-- An answer of the thousandth second is saved when the clock has been set back to the nine
hundredth, with three hundred seconds left; the clock then runs for a hundred seconds, and the
loaded answer has three hundred seconds left again. -/
theorem early_save_stops_the_clock : ∃ s t e e',
    (machine sampleLibrary).exec .init
      [.insert sampleQuery (sampleAnswer (atSecond 1000)) (atSecond 1000) 0] = some s ∧
    SaveLoad sampleLibrary s (atSecond 900) 0 (atSecond 1000) (100 * second) t ∧
    s.entries.get sampleQuery = some e ∧ t.entries.get sampleQuery = some e' ∧
    ¬ ((e'.remaining (atSecond 1000) (100 * second) : ℤ) ≤ e.remaining (atSecond 900) 0 -
      ((atSecond 1000).nanos - (atSecond 900).nanos)) := by
  refine ⟨_, _, ⟨[0], 300 * second, atSecond 1000, 0, 0⟩,
    ⟨[0], 300 * second, atSecond 1000, 100 * second, 0⟩, rfl, ⟨_, rfl, rfl⟩, ?_, ?_, ?_⟩
  all_goals decide +kernel

end DnsServer
