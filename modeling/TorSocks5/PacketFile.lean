/-
**The file of the packet cache: what is written is read back, frame by frame.**

The file is a magic string and one frame for each entry, and a frame carries its own length.  So a
reader that stops at the first truncated frame and skips a frame that is not in order recovers
whatever is left whole: all entries from the whole file, those of the complete frames from a prefix,
and all others when the packet of one frame is no longer a message.
-/

import TorSocks5.PacketBounds
import TorSocks5.PacketReload

set_option autoImplicit false

namespace DnsServer

open List

variable {X : Type}

variable {lib : Library X} {key : Query} {entry : Entry} {now : OffsetDateTime} {instant : ℕ}
  {b : (_ : Query) × Entry}

/-! ### Caches -/

/-- A binding that the cache can hold: the packet is a message that asks the question of the key and
may be cached for the lifetime of the entry. -/
structure Storable (lib : Library X) (key : Query) (entry : Entry) : Prop where
  packet_le : entry.packet.length ≤ maxPacket
  message : ∃ message query policy, lib.fromVec entry.packet = some message ∧
    message.queries.head? = some query ∧ cacheTtl query message = some policy ∧
    key = admittedQuery query ∧ entry.ttl ≤ policy

/-- By the wall clock the lifetime of an entry has begun and is not over. -/
def Lives (entry : Entry) (now : OffsetDateTime) : Prop :=
  entry.resolvedAt.nanos ≤ now.nanos ∧ now.nanos < entry.resolvedAt.nanos + entry.ttl

instance (entry : Entry) (now : OffsetDateTime) : Decidable (Lives entry now) :=
  inferInstanceAs (Decidable (_ ∧ _))

/-- A cache whose entries live. -/
structure Holdable (lib : Library X) (now : OffsetDateTime) (cache : Entries) : Prop where
  within : Within cache
  storable : ∀ b ∈ cache.entries, Storable lib b.1 b.2
  lives : ∀ b ∈ cache.entries, Lives b.2 now

/-- The entry after a load: its age is that of the wall clock. -/
def Entry.reloaded (entry : Entry) (now : OffsetDateTime) (instant : ℕ) : Entry :=
  { entry with
    admitted := instant
    initialAge := (now.nanos - entry.resolvedAt.nanos).toNat }

theorem wallAge_of_lives (h : Lives entry now) :
    wallAge entry.resolvedAt now = some (now.nanos - entry.resolvedAt.nanos).toNat :=
  if_pos h.1

theorem unexpired_reloaded (h : Lives entry now)
    (instant : ℕ) : unexpired now instant (entry.reloaded now instant) = true := by
  have hage := wallAge_of_lives h
  obtain ⟨hbegun, hover⟩ := h
  simp only [unexpired, Entry.remaining, Entry.age, Entry.reloaded, hage, decide_eq_true_eq,
    Option.getD_some]
  omega

theorem Storable.fits (h : Storable lib key entry) :
    entry.packet.length < 2 ^ 32 ∧ entry.ttl / second < 2 ^ 64 := by
  obtain ⟨_, _, policy, -, -, hpolicy, -, httl⟩ := h.message
  have hlen := h.packet_le
  have hsmall := (cacheable_of_cacheTtl hpolicy).small
  constructor
  · unfold maxPacket at hlen
    omega
  · refine Nat.div_lt_of_lt_mul ?_
    unfold second at hsmall ⊢
    omega

/-- The frame of an entry stands for the entry. -/
theorem frameEntry_of_storable (h : Storable lib key entry) (hlives : Lives entry now)
    (instant : ℕ) :
    frameEntry lib (frameOf entry) now instant = some (key, entry.reloaded now instant) := by
  obtain ⟨message, query, policy, hdec, hquery, hpolicy, rfl, httl⟩ := h.message
  have hstamp := lib.fromUnixTimestampNanos_nanos entry.resolvedAt
  have hsub : entry.ttl % second < 1000000000 := Nat.mod_lt _ (by decide)
  have hfull : entry.ttl / second * second + entry.ttl % second = entry.ttl :=
    Nat.div_add_mod' _ _
  have hage : (now.nanos - entry.resolvedAt.nanos).toNat < entry.ttl := by grind [Lives]
  simp [frameEntry, frameOf, guard, h.packet_le, hstamp, hsub, wallAge_of_lives hlives, hdec,
    hquery, hpolicy, hfull, min_eq_left httl, hage, hage.trans_le httl, Entry.reloaded]

variable {frame : Frame} {data rest junk : List UInt8} {i : ℕ}
theorem frameEntry_of_junk
    (h : lib.fromVec frame.packet = none) (now : OffsetDateTime) (instant : ℕ) :
    frameEntry lib frame now instant = none := by
  rw [Option.eq_none_iff_forall_ne_some]
  rintro ⟨key, entry⟩ hsome
  obtain ⟨-, -, message, -, -, -, -, -, -, hdec, -⟩ := frameEntry_spec hsome
  simp [h] at hdec

/-! ### Truncated frames -/

theorem readFrame_append (h : readFrame data = some (frame, rest)) (more : List UInt8) :
    readFrame (data ++ more) = some (frame, rest ++ more) := by
  simp only [readFrame, Option.bind_eq_bind, Option.bind_eq_some_iff] at h
  obtain ⟨⟨stamp, data₁⟩, h₁, ⟨seconds, data₂⟩, h₂, ⟨nanos, data₃⟩, h₃, ⟨length, data₄⟩, h₄,
    ⟨packet, data₅⟩, h₅, h⟩ := h
  cases h
  simp [readFrame, BigEndian.split_append_of_some h₁, BigEndian.split_append_of_some h₂,
    BigEndian.split_append_of_some h₃, BigEndian.split_append_of_some h₄,
    BigEndian.split_append_of_some h₅]

/-- A truncated frame is not read: it would be read with an empty rest, and what was cut off comes
after that. -/
theorem readFrame_take (hpacket : entry.packet.length < 2 ^ 32)
    (httl : entry.ttl / second < 2 ^ 64) {n : ℕ} (hn : n < (encodeFrame entry).length) :
    readFrame ((encodeFrame entry).take n) = none := by
  rw [Option.eq_none_iff_forall_ne_some]
  rintro ⟨frame, rest⟩ h
  have hlong := readFrame_append h ((encodeFrame entry).drop n)
  have hwhole := readFrame_encodeFrame hpacket httl []
  rw [take_append_drop] at hlong
  rw [append_nil, hlong] at hwhole
  simp at hwhole
  omega

theorem readFrame_nil : readFrame [] = none := rfl

/-- A prefix of the frames of some entries: the frames that lie inside it, and a rest from which no
frame is read. -/
theorem exists_take_frames : ∀ {es : List Entry} (n : ℕ),
    (∀ e ∈ es, e.packet.length < 2 ^ 32 ∧ e.ttl / second < 2 ^ 64) →
      ∃ m rest, (es.flatMap encodeFrame).take n = (es.take m).flatMap encodeFrame ++ rest ∧
        readFrame rest = none ∧
        ∀ i < es.length, i < m ↔ ((es.take (i + 1)).flatMap encodeFrame).length ≤ n := by
  intro es
  induction es with
  | nil => exact fun n _ => ⟨0, [], by simp, readFrame_nil, by simp⟩
  | cons e es ih =>
    intro n hfits
    obtain ⟨⟨hpacket, httl⟩, hfits⟩ := forall_mem_cons.1 hfits
    by_cases hn : (encodeFrame e).length ≤ n
    · obtain ⟨m, rest, htake, hrest, hends⟩ := ih (n - (encodeFrame e).length) hfits
      refine ⟨m + 1, rest, ?_, hrest, fun i hi => ?_⟩
      · simp [take_append, htake, take_of_length_le hn]
      · rw [take_succ_cons, flatMap_cons, length_append]
        cases i with
        | zero => simpa using hn
        | succ i =>
          have hend := hends i (Nat.lt_of_succ_lt_succ hi)
          omega
    · -- the cut is inside the first frame
      refine ⟨0, (encodeFrame e).take n, ?_, readFrame_take hpacket httl (Nat.lt_of_not_le hn),
        fun i _ => ?_⟩
      · simp [take_append_of_le_length (Nat.lt_of_not_le hn).le]
      · rw [take_succ_cons, flatMap_cons, length_append]
        omega

/-! ### Reading frames -/

/-- The reader admits the entries of the frames that are in order. -/
theorem decodeFrames_encode (hrest : readFrame rest = none) :
    ∀ {es : List Entry} {rounds : ℕ} {t : Entries},
      (∀ e ∈ es, e.packet.length < 2 ^ 32 ∧ e.ttl / second < 2 ^ 64) → es.length ≤ rounds →
        decodeFrames lib now instant rounds (es.flatMap encodeFrame ++ rest) t =
          (es.filterMap fun e => frameEntry lib (frameOf e) now instant).foldl
            (fun t b => admitEntry t b.1 b.2 now instant) t := by
  intro es
  induction es with
  | nil =>
    intro rounds t _ _
    cases rounds <;> simp [decodeFrames, hrest]
  | cons e es ih =>
    intro rounds t hfits hrounds
    obtain ⟨⟨hpacket, httl⟩, hfits⟩ := forall_mem_cons.1 hfits
    cases rounds with
    | zero => simp at hrounds
    | succ rounds =>
      have hmore := fun t => ih (t := t) hfits (Nat.le_of_succ_le_succ hrounds)
      rw [flatMap_cons, append_assoc, decodeFrames,
        readFrame_encodeFrame hpacket httl]
      cases hframe : frameEntry lib (frameOf e) now instant <;> simp [hframe, hmore]

theorem admitEntry_of_fits {t : Entries} (hlive : ∀ b ∈ t.entries, unexpired now instant b.2 = true)
    (hkey : key ∉ t.keys) (hfits : Fits entry.packet.length t) :
    admitEntry t key entry now instant = t.insert key entry := by
  have hroom : makeRoom t key now instant = t := by
    rw [makeRoom, Table.retain_eq_self hlive, Table.remove_eq_self hkey]
  simp [admitEntry, hroom, evict, evictLoop, fits_iff.1 hfits]

/-- Admitting entries that fit together is inserting them. -/
theorem foldl_admit : ∀ {bs : List (Query × Entry)} {t : Entries},
      (bs.map Prod.fst).Nodup → (∀ b ∈ bs, b.1 ∉ t.keys) →
      (∀ b ∈ bs, unexpired now instant b.2 = true) →
      (∀ b ∈ t.entries, unexpired now instant b.2 = true) →
      t.len + bs.length ≤ dnsCacheCap →
      payload t + (bs.map fun b => b.2.packet.length).sum ≤ maxPayload →
        bs.foldl (fun t b => admitEntry t b.1 b.2 now instant) t =
          bs.foldl (fun t b => t.insert b.1 b.2) t := by
  intro bs
  induction bs with
  | nil => exact fun _ _ _ _ _ _ => rfl
  | cons b bs ih =>
    intro t hnd hnew hlive hold hlen hbytes
    rw [map_cons, nodup_cons] at hnd
    rw [length_cons] at hlen
    rw [map_cons, sum_cons] at hbytes
    obtain ⟨hkey, hnew⟩ := forall_mem_cons.1 hnew
    obtain ⟨hb, hlive⟩ := forall_mem_cons.1 hlive
    have hremove : t.remove b.1 = t := Table.remove_eq_self hkey
    rw [foldl_cons, foldl_cons, admitEntry_of_fits hold hkey ⟨by omega, by omega⟩]
    refine ih hnd.2 (fun c hc => ?_) hlive (fun c hc => ?_) ?_ ?_
    · have hne : c.1 ≠ b.1 := fun heq => hnd.1 (heq ▸ mem_map_of_mem hc)
      rw [Table.mem_keys_iff, Table.get_insert_of_ne t hne, ← Table.mem_keys_iff]
      exact hnew c hc
    · have hget := Table.mem_entries.1 hc
      rw [Table.get_insert] at hget
      split_ifs at hget with hk
      · exact Option.some.inj hget ▸ hb
      · exact hold c (Table.mem_entries.2 hget)
    · rw [Table.len_insert, hremove]
      omega
    · unfold payload at hbytes ⊢
      rw [Table.sum_insert, hremove]
      omega

/-- The entries of some frames of a cache, when these are the ones in order. -/
theorem get_decodeFrames_holdable {cache : Entries}
    (h : Holdable lib now cache) (instant : ℕ) {es : List Entry}
    {bs : List ((_ : Query) × Entry)} (hsub : bs.Sublist cache.entries)
    (hfits : ∀ e ∈ es, e.packet.length < 2 ^ 32 ∧ e.ttl / second < 2 ^ 64)
    (hlen : es.length ≤ dnsCacheCap) (hrest : readFrame rest = none)
    (hgood : (es.filterMap fun e => frameEntry lib (frameOf e) now instant) =
      bs.map fun b => (b.1, b.2.reloaded now instant)) (k : Query) (e' : Entry) :
    (decodeFrames lib now instant dnsCacheCap (es.flatMap encodeFrame ++ rest) ∅).get k = some e' ↔
      ∃ b ∈ bs, b.1 = k ∧ b.2.reloaded now instant = e' := by
  have hkeys : ((bs.map fun b => (b.1, b.2.reloaded now instant)).map Prod.fst).Nodup := by
    rw [map_map]
    exact List.Nodup.sublist (hsub.map Sigma.fst) cache.nodupKeys
  have hbytes : (bs.map fun b => b.2.packet.length).sum ≤ maxPayload :=
    ((hsub.map fun b => b.2.packet.length).sum_le_sum (by simp)).trans h.within.2
  rw [decodeFrames_encode hrest hfits hlen, hgood, foldl_admit hkeys]
  · rw [Table.get_foldl_insert Prod.fst Prod.snd _ _ hkeys]
    simp
  · simp
  · exact forall_mem_map.2 fun b hb => unexpired_reloaded (h.lives b (hsub.subset hb)) instant
  · simp
  · simpa using hsub.length_le.trans h.within.1
  · rw [map_map]
    simpa [payload, Table.sum, Function.comp_def, Entry.reloaded] using hbytes

/-! ### The file -/

/-- The file of the entries of a cache, in the order in which it hands them out. -/
def fileOf (cache : Entries) : List UInt8 :=
  magic ++ (cache.entries.map Sigma.snd).flatMap encodeFrame

/-- Where the frame of an entry ends in the file. -/
def frameEnd (cache : Entries) (i : ℕ) : ℕ :=
  magic.length + (((cache.entries.map Sigma.snd).take (i + 1)).flatMap encodeFrame).length

/-- The file with other bytes in place of a packet, which is the end of its frame. -/
def replacePacket (cache : Entries) (i : ℕ) (junk : List UInt8) : List UInt8 :=
  (fileOf cache).take (frameEnd cache i - junk.length) ++ junk ++
    (fileOf cache).drop (frameEnd cache i)

/-- A table has the entries of some frames of a file, as they are after a load, and no others. -/
def Gives (loaded cache : Entries) (kept : ℕ → Prop) (now : OffsetDateTime) (instant : ℕ) : Prop :=
  ∀ k e', loaded.get k = some e' ↔ ∃ i b, cache.entries[i]? = some b ∧ kept i ∧ b.1 = k ∧
    b.2.reloaded now instant = e'

theorem length_encodeFrame (entry : Entry) :
    (encodeFrame entry).length = frameHeader + entry.packet.length := by
  simp [encodeFrame, frameHeader]
  omega

theorem length_frames (es : List Entry) : (es.flatMap encodeFrame).length =
    es.length * frameHeader + (es.map fun e => e.packet.length).sum := by
  induction es with
  | nil => rfl
  | cons e es ih =>
    simp only [flatMap_cons, length_append, ih, length_encodeFrame, length_cons,
      map_cons, sum_cons]
    ring

theorem decode_magic (h : (magic ++ data).length ≤ maxFile) (now : OffsetDateTime) (instant : ℕ) :
    decode lib (magic ++ data) now instant = decodeFrames lib now instant dnsCacheCap data ∅ := by
  have hstart : magic.isPrefixOf (magic ++ data) = true :=
    isPrefixOf_iff_prefix.2 (prefix_append _ _)
  rw [decode, hstart, decide_eq_false (Nat.not_lt.2 h), if_neg (by decide), drop_left]

theorem decode_take_magic {n : ℕ} (h : n < magic.length) (now : OffsetDateTime) (instant : ℕ) :
    decode lib ((magic ++ data).take n) now instant = ∅ := by
  have hcut : magic.isPrefixOf ((magic ++ data).take n) = false := by
    rw [Bool.eq_false_iff]
    intro hstart
    have hle := ( isPrefixOf_iff_prefix.1 hstart).length_le
    rw [length_take] at hle
    omega
  simp [decode, hcut]

section File

variable {lib : Library X} {now : OffsetDateTime} {cache : Entries}

theorem Holdable.fits (h : Holdable lib now cache) :
    ∀ e ∈ cache.entries.map Sigma.snd,
      e.packet.length < 2 ^ 32 ∧ e.ttl / second < 2 ^ 64 := by
  exact forall_mem_map.2 fun b hb => (h.storable b hb).fits

theorem Holdable.encodeFile (h : Holdable lib now cache) :
    encodeFile (cache.entries.map Sigma.snd) = some (fileOf cache) :=
  if_pos fun e he => (h.fits e he).1

theorem Holdable.length_file (h : Holdable lib now cache) : (fileOf cache).length ≤ maxFile := by
  have hbytes : ((cache.entries.map Sigma.snd).map fun e => e.packet.length).sum ≤ maxPayload := by
    rw [map_map]
    exact h.within.2
  have hheaders : cache.entries.length * frameHeader ≤ dnsCacheCap * frameHeader :=
    Nat.mul_le_mul_right frameHeader h.within.1
  rw [fileOf, length_append, length_frames, length_map, maxFile]
  omega

theorem Holdable.filterMap_frames (h : Holdable lib now cache) (instant : ℕ)
    {bs : List ((_ : Query) × Entry)} (hsub : bs ⊆ cache.entries) :
    ((bs.map Sigma.snd).filterMap fun e => frameEntry lib (frameOf e) now instant) =
      bs.map fun b => (b.1, b.2.reloaded now instant) := by
  rw [filterMap_map, ← filterMap_eq_map]
  exact filterMap_congr fun b hb =>
    frameEntry_of_storable (h.storable b (hsub hb)) (h.lives b (hsub hb)) instant

/-- A prefix gives the entries whose frames lie inside it. -/
theorem Holdable.gives_take (h : Holdable lib now cache) (instant n : ℕ) :
    Gives (decode lib ((fileOf cache).take n) now instant) cache
      (fun i => frameEnd cache i ≤ n) now instant := by
  intro k e'
  by_cases hn : n < magic.length
  · -- no frame ends before the magic does
    rw [fileOf, decode_take_magic hn]
    simp only [Table.get_empty, reduceCtorEq, false_iff]
    rintro ⟨i, b, -, hend, -⟩
    unfold frameEnd at hend
    omega
  · have hmagic : magic.length ≤ n := Nat.le_of_not_lt hn
    obtain ⟨m, rest, htake, hrest, hends⟩ := exists_take_frames (n - magic.length) h.fits
    have hstart : (fileOf cache).take n =
        magic ++ (((cache.entries.map Sigma.snd).take m).flatMap encodeFrame ++ rest) := by
      rw [← htake, fileOf, take_append, take_of_length_le hmagic]
    have hsub : (cache.entries.take m).Sublist cache.entries := take_sublist m _
    have hcount : ((cache.entries.map Sigma.snd).take m).length ≤ dnsCacheCap := by
      rw [← map_take, length_map]
      exact hsub.length_le.trans h.within.1
    rw [hstart, decode_magic
        (hstart ▸ (take_sublist n (fileOf cache)).length_le.trans h.length_file),
      get_decodeFrames_holdable h instant hsub
        (fun e he => h.fits e (mem_of_mem_take he)) hcount hrest
        (by rw [← map_take]; exact h.filterMap_frames instant hsub.subset)]
    have hinside : ∀ i < cache.entries.length, i < m ↔ frameEnd cache i ≤ n := by
      intro i hi
      have hend := hends i (by rwa [length_map])
      unfold frameEnd
      omega
    simp only [mem_iff_getElem?, getElem?_take]
    grind

/-- The whole file gives all entries. -/
theorem Holdable.gives_file (h : Holdable lib now cache) (instant : ℕ) :
    Gives (decode lib (fileOf cache) now instant) cache (fun _ => True) now instant := by
  have hall := h.gives_take instant (fileOf cache).length
  rw [take_length] at hall
  intro k e'
  rw [hall k e']
  have hend : ∀ i, frameEnd cache i ≤ (fileOf cache).length := by
    intro i
    have hle := ((take_sublist (i + 1) (cache.entries.map Sigma.snd)).flatMap
      encodeFrame).length_le
    rw [frameEnd, fileOf, length_append]
    omega
  simp [hend]

/-! ### A damaged packet -/

/-- An entry with other bytes for its packet. -/
def Entry.withPacket (entry : Entry) (junk : List UInt8) : Entry := { entry with packet := junk }

/-- The head of a frame, which depends on the length of the packet only. -/
def frameHead (entry : Entry) : List UInt8 :=
  BigEndian.encodeSigned 16 entry.resolvedAt.nanos ++
    (BigEndian.encode 8 (entry.ttl / second) ++
      (BigEndian.encode 4 (entry.ttl % second) ++ BigEndian.encode 4 entry.packet.length))

theorem encodeFrame_eq (entry : Entry) : encodeFrame entry = frameHead entry ++ entry.packet := by
  simp [encodeFrame, frameHead]

theorem frameHead_of_length (h : junk.length = entry.packet.length) :
    frameHead (entry.withPacket junk) = frameHead entry := by
  simp [frameHead, Entry.withPacket, h]

theorem entries_eq_take_cons_drop (hb : cache.entries[i]? = some b) :
    cache.entries = cache.entries.take i ++ b :: cache.entries.drop (i + 1) := by
  obtain ⟨hi, hget⟩ := List.getElem?_eq_some_iff.1 hb
  rw [← hget, List.cons_getElem_drop_succ, List.take_append_drop]

/-- The file with a damaged packet is the file of the damaged entry. -/
theorem replacePacket_eq
    (hb : cache.entries[i]? = some b) (hjunk : junk.length = b.2.packet.length) :
    replacePacket cache i junk = magic ++
      (((cache.entries.take i).map Sigma.snd ++ b.2.withPacket junk ::
        (cache.entries.drop (i + 1)).map Sigma.snd).flatMap encodeFrame) := by
  have hparts := entries_eq_take_cons_drop hb
  set head := magic ++ ((cache.entries.take i).map Sigma.snd).flatMap encodeFrame ++
    frameHead b.2 with hhead
  have hfirst : (cache.entries.map Sigma.snd).take (i + 1) =
      (cache.entries.take i).map Sigma.snd ++ [b.2] := by
    simp [← map_take, take_add_one, hb]
  have hfile : fileOf cache =
      head ++ (b.2.packet ++ ((cache.entries.drop (i + 1)).map Sigma.snd).flatMap encodeFrame) := by
    rw [fileOf]
    nth_rewrite 1 [hparts]
    simp [hhead, encodeFrame_eq]
  have hend : frameEnd cache i = head.length + b.2.packet.length := by
    rw [frameEnd, hfirst]
    simp [hhead, encodeFrame_eq]
    omega
  have htake : frameEnd cache i - junk.length = head.length := by omega
  rw [replacePacket, htake, hend, hfile, take_left, ← drop_drop, drop_left,
    drop_left, hhead]
  simp [encodeFrame_eq, frameHead_of_length hjunk]
  rfl

/-- A damaged packet costs its own entry and no other. -/
theorem Holdable.gives_replace (h : Holdable lib now cache) (instant : ℕ)
    (hb : cache.entries[i]? = some b)
    (hjunk : junk.length = b.2.packet.length) (hbad : lib.fromVec junk = none) :
    Gives (decode lib (replacePacket cache i junk) now instant) cache (fun j => j ≠ i) now
      instant := by
  have hparts := entries_eq_take_cons_drop hb
  have hbefore : cache.entries.take i ⊆ cache.entries := (take_sublist i _).subset
  have hafter : cache.entries.drop (i + 1) ⊆ cache.entries :=
    (drop_sublist (i + 1) _).subset
  set es := (cache.entries.take i).map Sigma.snd ++ b.2.withPacket junk ::
    (cache.entries.drop (i + 1)).map Sigma.snd with hes
  have hfits : ∀ e ∈ es, e.packet.length < 2 ^ 32 ∧ e.ttl / second < 2 ^ 64 := by
    have hold := h.fits b.2 (mem_map_of_mem (mem_of_getElem? hb))
    rw [hes, forall_mem_append, forall_mem_cons]
    exact ⟨fun e he => h.fits e (map_subset _ hbefore he), ⟨hjunk ▸ hold.1, hold.2⟩,
      fun e he => h.fits e (map_subset _ hafter he)⟩
  -- the damaged frame is as long as the frame was
  have hlengths : (es.map fun e => e.packet.length) =
      (cache.entries.map Sigma.snd).map fun e => e.packet.length := by
    nth_rewrite 1 [hparts]
    simp [hes, Entry.withPacket, hjunk]
  have hcount : es.length = cache.entries.length := by
    simpa using congrArg length hlengths
  have hshort : (magic ++ (es.flatMap encodeFrame ++ [])).length ≤ maxFile := by
    have hfile := h.length_file
    rw [fileOf, length_append, length_frames, ← hlengths, length_map, ← hcount,
      ← length_frames, ← length_append] at hfile
    rwa [append_nil]
  have hgood : (es.filterMap fun e => frameEntry lib (frameOf e) now instant) =
      (cache.entries.eraseIdx i).map fun b => (b.1, b.2.reloaded now instant) := by
    have hnone : frameEntry lib (frameOf (b.2.withPacket junk)) now instant = none :=
      frameEntry_of_junk hbad now instant
    rw [eraseIdx_eq_take_drop_succ, map_append, ← h.filterMap_frames instant hbefore,
      ← h.filterMap_frames instant hafter, hes, filterMap_append, filterMap_cons]
    simp only [hnone]
  intro k e'
  rw [replacePacket_eq hb hjunk, ← hes, ← append_nil (es.flatMap encodeFrame),
    decode_magic hshort, get_decodeFrames_holdable h instant (eraseIdx_sublist _ i) hfits
      (hcount.trans_le h.within.1) readFrame_nil hgood]
  clear_value es
  clear * -
  simp only [mem_eraseIdx_iff_getElem?]
  grind

/-- **The file degrades frame by frame.**  Of any cache that can be held and whose entries live at
the time of reading, whatever the instant: the whole file gives back every question with its packet,
stamp and lifetime; a prefix gives those whose frames lie inside it, so none when the magic is cut;
and when bytes that are not a message take the place of one packet, every other entry is read. -/
theorem file_degrades_by_frames (h : Holdable lib now cache) (instant : ℕ) :
    encodeFile (cache.entries.map Sigma.snd) = some (fileOf cache) ∧
      (∀ k, (decode lib (fileOf cache) now instant).get k =
        (cache.get k).map fun e => e.reloaded now instant) ∧
      (∀ n, Gives (decode lib ((fileOf cache).take n) now instant) cache
        (fun i => frameEnd cache i ≤ n) now instant) ∧
      ∀ i b junk, cache.entries[i]? = some b → junk.length = b.2.packet.length →
        lib.fromVec junk = none →
          Gives (decode lib (replacePacket cache i junk) now instant) cache (fun j => j ≠ i) now
            instant := by
  refine ⟨h.encodeFile, ?_, h.gives_take instant, fun i b junk => h.gives_replace instant⟩
  intro k
  refine Option.ext fun e' => ?_
  rw [h.gives_file instant k e', Option.map_eq_some_iff]
  constructor
  · rintro ⟨i, b, hi, -, rfl, he⟩
    exact ⟨b.2, Table.mem_entries.1 (List.mem_of_getElem? hi), he⟩
  · rintro ⟨e, hget, he⟩
    have hmem : ⟨k, e⟩ ∈ cache.entries := Table.mem_entries.2 hget
    obtain ⟨i, hi⟩ := List.mem_iff_getElem?.1 hmem
    exact ⟨i, ⟨k, e⟩, hi, trivial, rfl, he⟩

end File

/-- A second question and its answer. -/
def otherQuery : Query := ⟨⟨[[119, 119, 119]], true⟩, .other 1, .internet⟩

def otherMessage : Message Unit :=
  { sampleMessage with
    queries := [otherQuery]
    answers := [⟨otherQuery.name, .internet, ⟨600, by decide⟩, .other (.other 1) ()⟩] }

/-- A library that knows two messages. -/
def pairLibrary : Library Unit where
  toVec message := some (if message = otherMessage then [1] else [0])
  fromVec packet :=
    if packet = [0] then some sampleMessage
    else if packet = [1] then some otherMessage
    else none
  fromUnixTimestampNanos := sampleLibrary.fromUnixTimestampNanos
  fromUnixTimestampNanos_nanos := sampleLibrary.fromUnixTimestampNanos_nanos

/-- A cache of two entries, one of them with less than the lifetime its packet allows. -/
def pairCache : Entries :=
  ((∅ : Entries).insert sampleQuery ⟨[0], 300 * second, atSecond ⟨20, by decide⟩, 0, 0⟩).insert
    otherQuery ⟨[1], 400 * second, atSecond ⟨10, by decide⟩, 0, 0⟩

theorem file_degrades_by_frames_pairCache :
    Holdable pairLibrary (atSecond 100) pairCache ∧
      (∀ k, (decode pairLibrary (fileOf pairCache) (atSecond 100) 7).get k =
        (pairCache.get k).map fun e => e.reloaded (atSecond 100) 7) ∧
      Gives (decode pairLibrary ((fileOf pairCache).take 60) (atSecond 100) 7) pairCache
        (fun i => frameEnd pairCache i ≤ 60) (atSecond 100) 7 ∧
      frameEnd pairCache 0 = 50 ∧ frameEnd pairCache 1 = 83 ∧ pairLibrary.fromVec [9] = none ∧
      Gives (decode pairLibrary (replacePacket pairCache 0 [9]) (atSecond 100) 7) pairCache
        (fun j => j ≠ 0) (atSecond 100) 7 := by
  have hentries : pairCache.entries = [⟨otherQuery, ⟨[1], 400 * second, atSecond 10, 0, 0⟩⟩,
      ⟨sampleQuery, ⟨[0], 300 * second, atSecond 20, 0, 0⟩⟩] := by decide +kernel
  have hhold : Holdable pairLibrary (atSecond 100) pairCache := by
    refine ⟨⟨by decide +kernel, by decide +kernel⟩, ?_, by rw [hentries]; decide +kernel⟩
    rw [hentries]
    refine List.forall_mem_cons.2 ⟨⟨by decide, otherMessage, otherQuery, 600 * second, ?_⟩,
      List.forall_mem_singleton.2 ⟨by decide, sampleMessage, sampleQuery, 300 * second, ?_⟩⟩ <;>
    exact ⟨rfl, rfl, by decide +kernel, rfl, by decide⟩
  obtain ⟨-, hwhole, hprefixes, hjunk⟩ := file_degrades_by_frames hhold 7
  exact ⟨hhold, hwhole, hprefixes 60, by decide +kernel, by decide +kernel, rfl,
    hjunk 0 _ [9] (by rw [hentries]; rfl) rfl rfl⟩

end DnsServer
