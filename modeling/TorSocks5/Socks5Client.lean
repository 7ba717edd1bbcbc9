/-
**The SOCKS5 handshake of the client.**

The client offers one method, may authenticate, and asks for a connection.  What the proxy sends
arrives in pieces; what has not arrived at the deadline never does.  The client gets through exactly
if the bytes begin with the right answers, and takes exactly these.
-/

import TorSocks5.BigEndian
import TorSocks5.Fragments
import TorSocks5.Text

set_option autoImplicit false

namespace Socks5Client

open Fragments (Stream)

/-- User name and password, of one to 255 bytes each. -/
structure Credentials where
  username : List Char
  password : List Char
  username_len : 1 ≤ (Text.utf8 username).length ∧ (Text.utf8 username).length ≤ 255
  password_len : 1 ≤ (Text.utf8 password).length ∧ (Text.utf8 password).length ≤ 255

inductive Error
  | invalidInput
  | io
  | timeout
  | protocol
  deriving DecidableEq

/-- `Credentials::new`. -/
def Credentials.new (username password : List Char) : Except Error Credentials :=
  if h : (1 ≤ (Text.utf8 username).length ∧ (Text.utf8 username).length ≤ 255) ∧
      (1 ≤ (Text.utf8 password).length ∧ (Text.utf8 password).length ≤ 255) then
    .ok ⟨username, password, h.1, h.2⟩
  else .error .invalidInput

inductive IpAddr
  | v4 (octets : Vector UInt8 4)
  | v6 (octets : Vector UInt8 16)

/-- What a request asks to connect to. -/
inductive Target
  | ip (addr : IpAddr)
  | domain (name : List UInt8)

/-! ### The exchange -/

/-- The bytes to come, where a broken stream is silent until the deadline; and the bytes written. -/
structure Conn where
  input : Stream UInt8
  written : List UInt8

/-- A part of the handshake. -/
abbrev Exchange := ExceptT Error (StateM Conn)

def write (bytes : List UInt8) : Exchange Unit := fun c =>
  (.ok (), { c with written := c.written ++ bytes })

/-- The loop of `read_exact`; the fuel is the number of bytes, as every read gives one. -/
def readLoop : ℕ → ℕ → Stream UInt8 → Except Error (List UInt8) × Stream UInt8
  | 0, 0, s => (.ok [], s)
  | 0, _ + 1, s => (.error .io, s)
  | _ + 1, 0, s => (.ok [], s)
  | fuel + 1, n + 1, s =>
    match s.read (n + 1) with
    | none => (.error .timeout, s)
    | some ([], s) => (.error .io, s)
    | some (block, s) =>
      let r := readLoop fuel (n + 1 - block.length) s
      (r.1.map (block ++ ·), r.2)

def readExact (n : ℕ) : Exchange (List UInt8) := fun c =>
  let r := readLoop n n c.input
  (r.1, { c with input := r.2 })

/-- Write a message, demand an answer and go on. -/
def demand (message answer : List UInt8) (next : Exchange Unit) : Exchange Unit := do
  write message
  let bytes ← readExact answer.length
  if bytes ≠ answer then throw .protocol else next

/-- The end of the reply: `n` bytes of address and the port. -/
def finish (header : List UInt8) (n : ℕ) : Exchange Unit := do
  let _ ← readExact (n + 2)
  if header.getD 1 0 ≠ 0 then throw .protocol else pure ()

/-- Write the request and read the reply. -/
def askConnect (request : List UInt8) : Exchange Unit := do
  write request
  let header ← readExact 4
  if header.getD 0 0 ≠ 5 ∨ header.getD 2 0 ≠ 0 then throw .protocol
  else if header.getD 3 0 = 1 then finish header 4
  else if header.getD 3 0 = 4 then finish header 16
  else if header.getD 3 0 = 3 then do
    let n ← readExact 1
    if n.getD 0 0 = 0 then throw .protocol else finish header (n.getD 0 0).toNat
  else throw .protocol

/-- The method that is offered. -/
def method (credentials : Option Credentials) : UInt8 := if credentials.isSome then 2 else 0

def authMessage (c : Credentials) : List UInt8 :=
  [1, UInt8.ofNat (Text.utf8 c.username).length] ++ Text.utf8 c.username ++
    UInt8.ofNat (Text.utf8 c.password).length :: Text.utf8 c.password

section Connect

variable (parseIp : List Char → Option IpAddr)

def target (host : List Char) : Target :=
  match parseIp host with
  | some ip => .ip ip
  | none => .domain (Text.utf8 host)

def requestMessage (t : Target) (port : UInt16) : List UInt8 :=
  [5, 1, 0] ++ (match t with
    | .ip (.v4 octets) => 1 :: octets.toList
    | .ip (.v6 octets) => 4 :: octets.toList
    | .domain name => 3 :: UInt8.ofNat name.length :: name) ++ BigEndian.encode 2 port.toNat

def Refused (host : List Char) : Prop :=
  host = [] ∨ 255 < (Text.utf8 host).length ∨ 0 ∈ Text.utf8 host

instance (host : List Char) : Decidable (Refused host) := by unfold Refused; infer_instance

/-- `connect`. -/
def connect (host : List Char) (port : UInt16) (credentials : Option Credentials) :
    Exchange Unit :=
  if Refused host then throw .invalidInput
  else
    let request := requestMessage (target parseIp host) port
    demand [5, 1, method credentials] [5, method credentials]
      (if method credentials = 2 then
        match credentials with
        | none => throw .protocol
        | some c => demand (authMessage c) [1, 0] (askConnect request)
      else askConnect request)

/-- All that the client writes in a handshake. -/
def transcript (host : List Char) (port : UInt16) (credentials : Option Credentials) :
    List UInt8 :=
  [5, 1, method credentials] ++ (match credentials with
    | none => []
    | some c => authMessage c) ++ requestMessage (target parseIp host) port

end Connect

/-! ### Reading the client's side -/

/-- What the messages of a client say. -/
structure Handshake where
  methods : List UInt8
  credentials : Option (List UInt8 × List UInt8)
  target : Target
  port : ℕ

/-- A field with its length before it. -/
def readField : List UInt8 → Option (List UInt8 × List UInt8)
  | [] => none
  | n :: rest => if n = 0 then none else BigEndian.split n.toNat rest

/-- RFC 1929. -/
def readAuth : List UInt8 → Option ((List UInt8 × List UInt8) × List UInt8)
  | 1 :: rest => do
    let (username, rest) ← readField rest
    let (password, rest) ← readField rest
    some ((username, password), rest)
  | _ => none

/-- The address of a request of RFC 1928. -/
def readTarget : List UInt8 → Option (Target × List UInt8)
  | 1 :: rest => (BigEndian.split 4 rest).bind fun p =>
    if h : p.1.length = 4 then some (.ip (.v4 ⟨p.1.toArray, h⟩), p.2) else none
  | 4 :: rest => (BigEndian.split 16 rest).bind fun p =>
    if h : p.1.length = 16 then some (.ip (.v6 ⟨p.1.toArray, h⟩), p.2) else none
  | 3 :: rest => (readField rest).map fun p => (.domain p.1, p.2)
  | _ => none

/-- A request to connect, with nothing behind it. -/
def readRequest : List UInt8 → Option (Target × ℕ)
  | 5 :: 1 :: 0 :: rest => do
    let (t, rest) ← readTarget rest
    if rest.length = 2 then some (t, BigEndian.decode rest) else none
  | _ => none

/-- All messages of a client whose proxy takes the first method that is offered. -/
def readHandshake : List UInt8 → Option Handshake
  | 5 :: rest => do
    let (methods, rest) ← readField rest
    if methods.head? = some 2 then
      let (credentials, rest) ← readAuth rest
      let (t, port) ← readRequest rest
      some ⟨methods, some credentials, t, port⟩
    else
      let (t, port) ← readRequest rest
      some ⟨methods, none, t, port⟩
  | _ => none

theorem readField_append {field : List UInt8} (hlen : 1 ≤ field.length ∧ field.length ≤ 255)
    (rest : List UInt8) :
    readField (UInt8.ofNat field.length :: (field ++ rest)) = some (field, rest) := by
  have hn : (UInt8.ofNat field.length).toNat = field.length := by
    rw [UInt8.toNat_ofNat']
    omega
  have hne : UInt8.ofNat field.length ≠ 0 := by
    intro h
    rw [h] at hn
    exact absurd hn (by simp; omega)
  rw [readField, if_neg hne, BigEndian.split_append hn.symm]

theorem readRequest_requestMessage {t : Target} (port : UInt16)
    (hname : ∀ name, t = .domain name → 1 ≤ name.length ∧ name.length ≤ 255) :
    readRequest (requestMessage t port) = some (t, port.toNat) := by
  have hport : BigEndian.decode (BigEndian.encode 2 port.toNat) = port.toNat :=
    BigEndian.decode_encode (lt_of_lt_of_eq port.toNat_lt (by norm_num))
  match t with
  | .ip (.v4 octets) =>
    simp [requestMessage, readRequest, readTarget, BigEndian.split_append, hport,
      ← Vector.toArray_toList]
  | .ip (.v6 octets) =>
    simp [requestMessage, readRequest, readTarget, BigEndian.split_append, hport,
      ← Vector.toArray_toList]
  | .domain name =>
    simp [requestMessage, readRequest, readTarget, readField_append (hname name rfl), hport]

theorem readAuth_authMessage (c : Credentials) (rest : List UInt8) :
    readAuth (authMessage c ++ rest) =
      some ((Text.utf8 c.username, Text.utf8 c.password), rest) := by
  simp [authMessage, readAuth, readField_append c.username_len, readField_append c.password_len]

/-- **The messages can be read in one way.** -/
theorem readHandshake_transcript {parseIp : List Char → Option IpAddr} {host : List Char}
    (hhost : ¬ Refused host) (port : UInt16) (credentials : Option Credentials) :
    readHandshake (transcript parseIp host port credentials) =
      some ⟨[method credentials],
        credentials.map fun c => (Text.utf8 c.username, Text.utf8 c.password),
        target parseIp host, port.toNat⟩ := by
  have hname : ∀ name, target parseIp host = .domain name →
      1 ≤ name.length ∧ name.length ≤ 255 := by
    intro name h
    simp only [Refused, not_or, not_lt] at hhost
    unfold target at h
    split at h
    · cases h
    · cases h
      exact ⟨List.length_pos_iff.mpr (Text.utf8_ne_nil hhost.1), hhost.2.1⟩
  have hrequest := readRequest_requestMessage port hname
  have hfield : ∀ (m : UInt8) rest, readField (1 :: m :: rest) = some ([m], rest) := fun m rest =>
    @readField_append [m] (by simp) rest
  cases credentials with
  | none => simp [transcript, readHandshake, hfield, hrequest, method]
  | some c =>
    simp [transcript, readHandshake, hfield, hrequest, method, readAuth_authMessage]

/-! ### What the client takes -/

/-- The bytes of a success reply; the tail is an address or a name, and a port. -/
inductive IsReply : List UInt8 → Prop
  | v4 {tail : List UInt8} (h : tail.length = 4 + 2) : IsReply ([5, 0, 0, 1] ++ tail)
  | v6 {tail : List UInt8} (h : tail.length = 16 + 2) : IsReply ([5, 0, 0, 4] ++ tail)
  | domain {n : UInt8} {tail : List UInt8} (hn : n ≠ 0) (h : tail.length = n.toNat + 2) :
    IsReply ([5, 0, 0, 3] ++ ([n] ++ tail))

def Conn.rest (c : Conn) : List UInt8 := c.input.rest

/-- A part gets through exactly if the input begins with certain bytes; it takes these and writes a
message, and where it fails it has written a part of the message. -/
structure Takes (P : List UInt8 → Prop) (message : List UInt8) (f : Exchange Unit) : Prop where
  complete : ∀ c bytes rest, P bytes → c.rest = bytes ++ rest → (f c).1 = .ok ()
  sound : ∀ c, (f c).1 = .ok () → (f c).2.written = c.written ++ message ∧
    ∃ bytes, P bytes ∧ c.rest = bytes ++ (f c).2.rest
  part : ∀ c, ∃ part, part <+: message ∧ (f c).2.written = c.written ++ part

variable {P : List UInt8 → Prop} {message : List UInt8} {f : Exchange Unit}
theorem Takes.congr {Q : List UInt8 → Prop}
    (h : Takes P message f) (hPQ : ∀ bytes, P bytes ↔ Q bytes) : Takes Q message f := by
  obtain rfl : P = Q := funext fun bytes => propext (hPQ bytes)
  exact h

theorem takes_pure : Takes (· = []) [] (pure ()) where
  complete _ _ _ _ _ := rfl
  sound _ _ := ⟨(List.append_nil _).symm, [], rfl, rfl⟩
  part _ := ⟨[], List.prefix_rfl, (List.append_nil _).symm⟩

theorem takes_throw (message : List UInt8) (e : Error) :
    Takes (fun _ => False) message (throw e) where
  complete _ _ _ h _ := h.elim
  sound _ h := nomatch h
  part _ := ⟨[], List.nil_prefix, (List.append_nil _).symm⟩

theorem takes_guard {b : Prop} [Decidable b] (e : Error) (h : ¬ b → Takes P message f) :
    Takes (fun bytes => ¬ b ∧ P bytes) message (if b then throw e else f) := by
  by_cases hb : b
  · rw [if_pos hb]
    exact (takes_throw message e).congr fun _ => by simp [hb]
  · rw [if_neg hb]
    exact (h hb).congr fun _ => by simp [hb]

theorem takes_write (bytes : List UInt8) (h : Takes P message f) :
    Takes P (bytes ++ message) (write bytes >>= fun _ => f) where
  complete c := h.complete { c with written := c.written ++ bytes }
  sound c hok := by
    obtain ⟨hwritten, htaken⟩ := h.sound { c with written := c.written ++ bytes } hok
    exact ⟨hwritten.trans (List.append_assoc _ _ _), htaken⟩
  part c := by
    obtain ⟨part, hpart, hwritten⟩ := h.part { c with written := c.written ++ bytes }
    exact ⟨bytes ++ part, (List.prefix_append_right_inj bytes).mpr hpart,
      hwritten.trans (List.append_assoc _ _ _)⟩

theorem readLoop_spec : ∀ (fuel n : ℕ) (s : Stream UInt8), n ≤ fuel →
    (n ≤ s.rest.length → (readLoop fuel n s).1 = .ok (s.rest.take n) ∧
      (readLoop fuel n s).2.rest = s.rest.drop n) ∧
    (s.rest.length < n → ∃ e, (readLoop fuel n s).1 = .error e)
  | 0, 0, s, _ | fuel + 1, 0, s, _ => by simp [readLoop]
  | fuel + 1, n + 1, s, hfuel => by
    rw [readLoop]
    rcases Stream.read_cases (Nat.succ_pos n) s with ⟨hrest, hread⟩ | ⟨block, t, hread, hblock, hle,
      hrest, -⟩
    · rw [hread, hrest]
      cases s.broken <;> simp
    · obtain ⟨b, bs, rfl⟩ := List.exists_cons_of_ne_nil hblock
      have hpos : 0 < (b :: bs).length := by simp
      obtain ⟨hok, herr⟩ := readLoop_spec fuel (n + 1 - (b :: bs).length) t (by omega)
      rw [hread, hrest]
      simp only [List.length_append]
      constructor
      · intro hn
        obtain ⟨h₁, h₂⟩ := hok (by omega)
        rw [h₁, h₂, List.take_append, List.drop_append, List.take_of_length_le hle,
          List.drop_of_length_le hle]
        exact ⟨rfl, rfl⟩
      · intro hn
        obtain ⟨e, he⟩ := herr (by omega)
        exact ⟨e, by rw [he]; rfl⟩

/-- **What a read can be**: some bytes and the part that is given them, or a failure. -/
theorem readExact_bind (n : ℕ) (k : List UInt8 → Exchange Unit) (c : Conn) :
    (∃ x d, x.length = n ∧ c.rest = x ++ d.rest ∧ d.written = c.written ∧
      (readExact n >>= k) c = k x d) ∨
    (c.rest.length < n ∧ ∃ e d, (readExact n >>= k) c = (.error e, d) ∧ d.written = c.written) := by
  obtain ⟨hok, herr⟩ := readLoop_spec n n c.input le_rfl
  by_cases hn : n ≤ c.rest.length
  · obtain ⟨h₁, h₂⟩ := hok hn
    refine .inl ⟨c.rest.take n, { c with input := (readLoop n n c.input).2 }, by simp [hn], ?_, rfl,
      ?_⟩
    · exact (List.take_append_drop n c.rest).symm.trans (congrArg _ h₂.symm)
    · change ExceptT.bindCont k (readLoop n n c.input).1 _ = _
      rw [h₁]
      rfl
  · obtain ⟨e, he⟩ := herr (not_le.mp hn)
    refine .inr ⟨not_le.mp hn, e, { c with input := (readLoop n n c.input).2 }, ?_, rfl⟩
    change ExceptT.bindCont k (readLoop n n c.input).1 _ = _
    rw [he]
    rfl

theorem takes_read {Q : List UInt8 → List UInt8 → Prop} {n : ℕ}
    {k : List UInt8 → Exchange Unit} (h : ∀ x, x.length = n → Takes (Q x) message (k x)) :
    Takes (fun bytes => ∃ x y, x.length = n ∧ bytes = x ++ y ∧ Q x y) message (readExact n >>= k)
    where
  complete c bytes rest hbytes hrest := by
    obtain ⟨x, y, hx, rfl, hy⟩ := hbytes
    rw [List.append_assoc] at hrest
    rcases readExact_bind n k c with ⟨x', d, hx', hd, -, heq⟩ | ⟨hshort, -⟩
    · obtain ⟨rfl, hd⟩ := List.append_inj (hd.symm.trans hrest) (hx'.trans hx.symm)
      rw [heq]
      exact (h x' hx').complete d y rest hy hd
    · rw [hrest, List.length_append] at hshort
      omega
  sound c hok := by
    rcases readExact_bind n k c with ⟨x, d, hx, hd, hwritten, heq⟩ | ⟨-, e, d, heq, -⟩
    · rw [heq] at hok ⊢
      obtain ⟨hw, y, hy, hrest⟩ := (h x hx).sound d hok
      exact ⟨by rw [hw, hwritten], x ++ y, ⟨x, y, hx, rfl, hy⟩,
        by rw [hd, hrest, List.append_assoc]⟩
    · rw [heq] at hok
      cases hok
  part c := by
    rcases readExact_bind n k c with ⟨x, d, hx, hd, hwritten, heq⟩ | ⟨-, e, d, heq, hwritten⟩
    · rw [heq, ← hwritten]
      exact (h x hx).part d
    · rw [heq]
      exact ⟨[], List.nil_prefix, hwritten.trans (List.append_nil _).symm⟩

theorem takes_demand {next : Exchange Unit} (first answer : List UInt8) (h : Takes P message next) :
    Takes (fun bytes => ∃ y, bytes = answer ++ y ∧ P y) (first ++ message)
      (demand first answer next) := by
  refine (takes_write first (takes_read fun x _ => takes_guard .protocol fun _ => h)).congr ?_
  intro bytes
  constructor
  · rintro ⟨x, y, -, rfl, hx, hy⟩
    exact ⟨y, by rw [not_not.mp hx], hy⟩
  · rintro ⟨y, rfl, hy⟩
    exact ⟨answer, y, rfl, rfl, not_not.mpr rfl, hy⟩

theorem takes_finish (header : List UInt8) (n : ℕ) :
    Takes (fun bytes => bytes.length = n + 2 ∧ header.getD 1 0 = 0) [] (finish header n) := by
  refine (takes_read fun x _ => takes_guard .protocol fun _ => takes_pure).congr ?_
  intro bytes
  simp only [not_not]
  constructor
  · rintro ⟨x, y, hx, rfl, hheader, rfl⟩
    exact ⟨by simpa using hx, hheader⟩
  · rintro ⟨hlen, hheader⟩
    exact ⟨bytes, [], hlen, (List.append_nil _).symm, hheader, rfl⟩

theorem takes_ite {Q : List UInt8 → Prop} {g : Exchange Unit} {b : Prop}
    [Decidable b] (hf : Takes P message f) (hg : Takes Q message g) :
    Takes (fun bytes => (b ∧ P bytes) ∨ (¬ b ∧ Q bytes)) message (if b then f else g) := by
  by_cases hb : b
  · rw [if_pos hb]
    exact hf.congr fun _ => by simp [hb]
  · rw [if_neg hb]
    exact hg.congr fun _ => by simp [hb]

theorem takes_askConnect (request : List UInt8) : Takes IsReply request (askConnect request) := by
  have h := takes_write request (takes_read (n := 4) fun x _ => takes_guard .protocol
    (b := x.getD 0 0 ≠ 5 ∨ x.getD 2 0 ≠ 0) fun _ =>
      takes_ite (b := x.getD 3 0 = 1) (takes_finish x 4) (takes_ite (b := x.getD 3 0 = 4)
        (takes_finish x 16) (takes_ite (b := x.getD 3 0 = 3) (takes_read (n := 1) fun z _ =>
          takes_guard .protocol (b := z.getD 0 0 = 0) fun _ => takes_finish x (z.getD 0 0).toNat)
          (takes_throw [] .protocol))))
  rw [List.append_nil] at h
  refine h.congr fun bytes => ?_
  constructor
  · rintro ⟨x, y, hx, rfl, hguard, hcase⟩
    obtain ⟨version, code, reserved, kind, rfl⟩ : ∃ a b c d, x = [a, b, c, d] := by
      match x, hx with
      | [a, b, c, d], _ => exact ⟨a, b, c, d, rfl⟩
    simp only [List.getD_cons_zero, List.getD_cons_succ, not_or, not_not, and_false,
      or_false] at hguard hcase
    obtain ⟨rfl, rfl⟩ := hguard
    rcases hcase with ⟨rfl, hy, rfl⟩ | ⟨-, ⟨rfl, hy, rfl⟩ | ⟨-, rfl, z, w, hz, rfl, hn, hw, rfl⟩⟩
    · exact .v4 hy
    · exact .v6 hy
    · obtain ⟨n, rfl⟩ := List.length_eq_one_iff.mp hz
      exact .domain hn hw
  · intro hreply
    cases hreply with
    | v4 hlen => exact ⟨_, _, rfl, rfl, by simp, .inl ⟨rfl, hlen, rfl⟩⟩
    | v6 hlen => exact ⟨_, _, rfl, rfl, by simp, .inr ⟨by simp, .inl ⟨rfl, hlen, rfl⟩⟩⟩
    | domain hn hlen =>
      exact ⟨_, _, rfl, rfl, by simp, .inr ⟨by simp, .inr ⟨by simp, .inl ⟨rfl, _, _, rfl, rfl, hn,
        hlen, rfl⟩⟩⟩⟩

/-- What the proxy has to send first. -/
def welcome (credentials : Option Credentials) : List UInt8 :=
  [5, method credentials] ++ if credentials.isSome then [1, 0] else []

theorem takes_connect {parseIp : List Char → Option IpAddr} {host : List Char}
    (hhost : ¬ Refused host) (port : UInt16) (credentials : Option Credentials) :
    Takes (fun bytes => ∃ reply, bytes = welcome credentials ++ reply ∧ IsReply reply)
      (transcript parseIp host port credentials) (connect parseIp host port credentials) := by
  have hask := takes_askConnect (requestMessage (target parseIp host) port)
  rw [connect, if_neg hhost]
  cases credentials with
  | none => exact (takes_demand [5, 1, 0] [5, 0] hask).congr fun _ => by simp [welcome, method]
  | some c =>
    have h := takes_demand [5, 1, 2] [5, 2] (takes_demand (authMessage c) [1, 0] hask)
    rw [← List.append_assoc] at h
    refine h.congr fun bytes => ?_
    simp [welcome, method]

/-- **The handshake is exact.**  For every host that is accepted, port and credentials, and for
every stream of pieces that arrive before the deadline: the messages can be read in one way, as one
method, the credentials and the request; the client writes them, or a part of them where it fails;
it gets through exactly if the bytes begin with the acceptance of the method, the success of the
authentication if there is one, and a success reply; and then it has taken these bytes and no
more. -/
theorem handshake_exact (parseIp : List Char → Option IpAddr) {host : List Char}
    (hhost : ¬ Refused host) (port : UInt16) (credentials : Option Credentials)
    (input : Stream UInt8) :
    readHandshake (transcript parseIp host port credentials) =
      some ⟨[method credentials],
        credentials.map fun c => (Text.utf8 c.username, Text.utf8 c.password),
        target parseIp host, port.toNat⟩ ∧
    (method credentials = 2 ↔ credentials.isSome = true) ∧
    (connect parseIp host port credentials ⟨input, []⟩).2.written <+:
      transcript parseIp host port credentials ∧
    ((connect parseIp host port credentials ⟨input, []⟩).1 = .ok () ↔
      ∃ reply payload, IsReply reply ∧ input.rest = welcome credentials ++ reply ++ payload) ∧
    ((connect parseIp host port credentials ⟨input, []⟩).1 = .ok () →
      (connect parseIp host port credentials ⟨input, []⟩).2.written =
        transcript parseIp host port credentials ∧
      ∃ reply, IsReply reply ∧ input.rest = welcome credentials ++ reply ++
        (connect parseIp host port credentials ⟨input, []⟩).2.rest) := by
  have htakes := @takes_connect parseIp host hhost port credentials
  have hsound := htakes.sound ⟨input, []⟩
  refine ⟨readHandshake_transcript hhost port credentials, ?_, ?_, ⟨?_, ?_⟩, ?_⟩
  · cases credentials <;> simp [method]
  · obtain ⟨part, hpart, hwritten⟩ := htakes.part ⟨input, []⟩
    rw [hwritten]
    exact hpart
  · intro hok
    obtain ⟨-, _, ⟨reply, rfl, hreply⟩, hrest⟩ := hsound hok
    exact ⟨reply, _, hreply, hrest⟩
  · rintro ⟨reply, payload, hreply, hrest⟩
    exact htakes.complete _ _ payload ⟨reply, rfl, hreply⟩ hrest
  · intro hok
    obtain ⟨hwritten, _, ⟨reply, rfl, hreply⟩, hrest⟩ := hsound hok
    exact ⟨hwritten, reply, hreply, hrest⟩

/-- A proxy without authentication that sends its reply and a payload in one piece. -/
theorem handshake_exact_single :
    (connect (fun _ => none) ['a'] 80 none
      ⟨Stream.single ([5, 0, 5, 0, 0, 1] ++ List.replicate 7 9) false, []⟩).1 = .ok () :=
  (handshake_exact (fun _ => none) (show ¬ Refused ['a'] by decide) 80 none _).2.2.2.1.mpr
    ⟨[5, 0, 0, 1] ++ List.replicate 6 9, [9], .v4 rfl, rfl⟩

end Socks5Client
