/-
**The egress gate.**

A connection passes five checks before its egress is dialled: the global client list when it is
accepted, the handshake, the global onion switch, the onion right of its account and the client
list of its account.  They stand in two functions and read the users registry at different moments.
Together they enforce one policy, which is stated here without reference to the order of the checks.
-/

import TorSocks5.Server

set_option autoImplicit false

namespace Server

open ClientAcl (IpAddr AllowedClients)
open Users (UsersConfig)

/-! ### Onion names -/

/-- The labels of a host name, without the trailing dots of a fully qualified one. -/
def labels (host : List Char) : List (List Char) := (trimEndDots host).splitOn '.'

/-- A name of at least two labels, of which the last one is `onion` in any letter case. -/
def OnionName (host : List Char) : Prop :=
  2 ≤ (labels host).length ∧ (labels host).getLast?.map toAsciiLowercase =
    some ['o', 'n', 'i', 'o', 'n']

theorem splitOn_dot_cons (c : Char) (cs : List Char) : (c :: cs).splitOn '.' =
    if c = '.' then [] :: cs.splitOn '.' else (cs.splitOn '.').modifyHead (List.cons c) := by
  simp [List.splitOn, List.splitOnP_cons_eq_if_modifyHead]

/-- The last dot separates the last label from the others. -/
theorem splitOn_of_rsplitDot (cs : List Char) :
    match rsplitDot cs with
    | some (_, b) => 2 ≤ (cs.splitOn '.').length ∧ (cs.splitOn '.').getLast? = some b
    | none => cs.splitOn '.' = [cs] := by
  induction cs with
  | nil => simp [rsplitDot, List.splitOn_nil]
  | cons c cs ih =>
    rw [rsplitDot, splitOn_dot_cons]
    cases hsplit : rsplitDot cs with
    | some r =>
      obtain ⟨a, b⟩ := r
      rw [hsplit] at ih
      obtain ⟨hlen, hlast⟩ := ih
      obtain ⟨x, y, rest, hrest⟩ : ∃ x y rest, cs.splitOn '.' = x :: y :: rest := by
        match hs : cs.splitOn '.', hlen with
        | x :: y :: rest, _ => exact ⟨x, y, rest, rfl⟩
      rw [hrest] at hlast ⊢
      by_cases hc : c = '.' <;> simpa [hc, List.getLast?_cons_cons] using hlast
    | none =>
      rw [hsplit] at ih
      by_cases hc : c = '.' <;> simp [hc, ih]

/-- **The check recognises exactly the onion names.** -/
theorem isOnion_iff (host : List Char) : isOnion host = true ↔ OnionName host := by
  have hsplit := splitOn_of_rsplitDot (trimEndDots host)
  unfold isOnion OnionName labels
  cases hr : rsplitDot (trimEndDots host) <;> rw [hr] at hsplit <;> simp [hsplit]

example : isOnion "Example.ONION..".toList = true := by decide

example : isOnion "onion".toList = false := by decide

/-! ### The policy -/

/-- The SDK has authenticated a user. -/
def Session.Authenticates (session : Session) (name : String) : Prop :=
  session.username = some name ∧ ∃ password, (name, password) ∈ session.verified

/-- The account `name` is enabled and its own client list, if it has one, allows the peer. -/
def ClientGranted (users : UsersConfig) (name : String) (peer : IpAddr) : Prop :=
  ∃ u, users.find name = some u ∧ u.isEnabled = true ∧
    ∀ policy, u.allowedClients = some policy → policy.allows peer = true

/-- The account `name` is enabled and may open onion services. -/
def OnionGranted (users : UsersConfig) (name : String) : Prop :=
  ∃ u, users.find name = some u ∧ u.isEnabled = true ∧ u.allowedOnion = true

/-- **The policy**: what must hold of a session whose egress is opened. -/
structure Admitted (cfg : Config) (c : Clearance) : Prop where
  /-- The global list allows the peer. -/
  ingress : cfg.allowedClients.allows c.session.peer = true
  /-- Without authentication anybody may pass; with it, a user whose account allows the peer. -/
  account : cfg.auth = false ∨ ∃ name, c.session.Authenticates name ∧
    ClientGranted c.clientUsers name c.session.peer
  /-- An onion service needs the global switch and the right of the account. -/
  onion : ¬ OnionName c.session.host ∨ cfg.blockOnion = false ∧
    (cfg.auth = false ∨ ∃ name, c.session.Authenticates name ∧ OnionGranted c.onionUsers name)

/-- **What the onion gate of the account lets pass.** -/
theorem onionPermitted_iff {cfg : Config} {users : UsersConfig} {username : Option String} :
    onionPermitted cfg users username = true ↔
      cfg.auth = false ∨ ∃ name, username = some name ∧ OnionGranted users name := by
  cases hauth : cfg.auth <;> cases username <;>
    simp [onionPermitted, hauth, OnionGranted, UsersConfig.allowedOnion_iff]

/-- **What the client gate of the account lets pass.** -/
theorem clientPermitted_iff {cfg : Config} {users : UsersConfig} {username : Option String}
    {known : Bool} {peer : IpAddr} :
    clientPermitted cfg users username (peerAddr known peer) = true ↔
      cfg.auth = false ∨ known = true ∧ ∃ name, username = some name ∧
        ClientGranted users name peer := by
  cases hauth : cfg.auth <;> cases username <;> cases known <;>
    simp [clientPermitted, hauth, peerAddr, ClientGranted, UsersConfig.clientAllowed_iff]

/-! ### The invariant -/

/-- The SDK reports a user name only after the verifier has accepted it with some password. -/
def SdkHonest (s : State) (a : Action) : Prop :=
  ∀ i name target pipeline peer verified,
    a = .handshake i (.accepted (some name) target pipeline) →
    s.conns i = .handshaking peer verified → ∃ password, (name, password) ∈ verified

/-- Every user name of the session was verified. -/
def Session.Honest (session : Session) : Prop :=
  ∀ name, session.username = some name → session.Authenticates name

/-- What a connection has passed so far. -/
def Vetted (cfg : Config) (h : History) : Phase → Prop
  | .queued peer => cfg.allowedClients.allows peer = true
  | .handshaking peer _ => cfg.allowedClients.allows peer = true
  | .requested session =>
    cfg.allowedClients.allows session.peer = true ∧ session.Honest
  | .onionPassed session users =>
    cfg.allowedClients.allows session.peer = true ∧ session.Honest ∧ users ∈ h.registries ∧
      (¬ OnionName session.host ∨ cfg.blockOnion = false ∧
        (cfg.auth = false ∨ ∃ name, session.Authenticates name ∧ OnionGranted users name))
  | .cleared c => Admitted cfg c ∧ c.onionUsers ∈ h.registries ∧ c.clientUsers ∈ h.registries
  | .dialing c => c ∈ h.dials
  | .established c => c ∈ h.dials
  | .piping c => c ∈ h.dials
  | .relaying c => c ∈ h.dials
  | _ => True

/-- **The invariant of the gates.** -/
structure Gated (cfg : Config) (s : State) : Prop where
  users : s.users ∈ s.history.registries
  vetted : ∀ i, Vetted cfg s.history (s.conns i)
  dials : ∀ c ∈ s.history.dials, Admitted cfg c ∧ c.onionUsers ∈ s.history.registries ∧
    c.clientUsers ∈ s.history.registries
  payloads : ∀ c ∈ s.history.payloads, c ∈ s.history.dials

theorem gated_init (cfg : Config) (users : UsersConfig) : Gated cfg (init users) where
  users := List.mem_singleton_self _
  vetted := fun _ => trivial
  dials := nofun
  payloads := nofun

theorem Vetted.mono {cfg : Config} {h h' : History} {p : Phase} (hp : Vetted cfg h p)
    (hreg : ∀ u ∈ h.registries, u ∈ h'.registries) (hdials : ∀ c ∈ h.dials, c ∈ h'.dials) :
    Vetted cfg h' p := by
  cases p with
  | onionPassed session users => exact ⟨hp.1, hp.2.1, hreg _ hp.2.2.1, hp.2.2.2⟩
  | cleared c => exact ⟨hp.1, hreg _ hp.2.1, hreg _ hp.2.2⟩
  | dialing c | established c | piping c | relaying c => exact hdials c hp
  | _ => exact hp

section Steps

variable {cfg : Config} {s t : State} {i : ℕ} {p : Phase}

theorem Gated.vetted_of (h : Gated cfg s) (hi : s.conns i = p) : Vetted cfg s.history p :=
  hi ▸ h.vetted i

/-- A connection that moves on to a phase it may be in keeps the invariant, if nothing is forgotten
and nothing is sent but to what was dialled. -/
theorem Gated.of_move (h : Gated cfg s) (hconns : t.conns = Function.update s.conns i p)
    (husers : t.users = s.users) (hreg : t.history.registries = s.history.registries)
    (hdials : t.history.dials = s.history.dials) (hp : Vetted cfg s.history p)
    (hpay : ∀ c ∈ t.history.payloads, c ∈ s.history.payloads ∨ c ∈ s.history.dials) :
    Gated cfg t := by
  refine ⟨by rw [husers, hreg]; exact h.users, fun j => ?_, by rw [hdials, hreg]; exact h.dials,
    fun c hc => hdials ▸ (hpay c hc).elim (h.payloads c) id⟩
  have hold : Vetted cfg s.history (t.conns j) := by
    rw [hconns, Function.update_apply]
    split_ifs
    · exact hp
    · exact h.vetted j
  exact hold.mono (fun u hu => hreg.symm ▸ hu) fun c hc => hdials.symm ▸ hc

theorem Gated.move (h : Gated cfg s) (hp : Vetted cfg s.history p) : Gated cfg (s.move i p) :=
  h.of_move rfl rfl rfl rfl hp fun _ => .inl

theorem Gated.send (h : Gated cfg s) {c : Clearance} (hc : c ∈ s.history.dials)
    (hconns : t.conns = Function.update s.conns i p) (husers : t.users = s.users)
    (hhist : t.history = (s.send c).history) (hp : Vetted cfg s.history p) : Gated cfg t := by
  refine h.of_move hconns husers (hhist ▸ rfl) (hhist ▸ rfl) hp fun c' hc' => ?_
  rw [hhist] at hc'
  rcases List.mem_cons.1 hc' with rfl | hc'
  · exact .inr hc
  · exact .inl hc'

theorem Gated.refuse (h : Gated cfg s) (e : Chain) : Gated cfg (s.refuse i e) :=
  h.of_move rfl rfl rfl rfl trivial fun _ => .inl

/-- An honest SDK makes honest sessions. -/
theorem honest_of_handshake {peer : IpAddr} {verified : List (String × String)}
    {result : Handshake} {session : Session} (hi : s.conns i = .handshaking peer verified)
    (hresult : sessionOf peer verified result = Except.ok session)
    (hsdk : SdkHonest s (.handshake i result)) :
    session.peer = peer ∧ session.Honest := by
  cases result with
  | failed e => cases hresult
  | accepted username target pipeline =>
    cases target with
    | none => cases hresult
    | some target =>
      obtain ⟨host, port⟩ := target
      cases hresult
      refine ⟨rfl, fun name hname => ⟨hname, ?_⟩⟩
      obtain rfl : username = some name := hname
      exact hsdk i name _ pipeline peer verified rfl hi

/-- **A step of the server keeps the invariant.** -/
theorem Gated.step {a : Action} (h : Gated cfg s) (hsdk : SdkHonest s a)
    (hstep : Step cfg s a t) : Gated cfg t := by
  cases hstep with
  | accepted hi hallow => exact h.move hallow
  | spawned hi =>
    exact h.of_move rfl rfl rfl rfl (p := .handshaking _ []) (h.vetted_of hi :) fun _ => .inl
  | verified _ _ _ hi | replied hi => exact h.move (h.vetted_of hi :)
  | @requested i peer verified result session hi hresult =>
    have hp := h.vetted_of hi
    obtain ⟨rfl, hhonest⟩ := honest_of_handshake hi hresult hsdk
    exact h.move ⟨hp, hhonest⟩
  | @onionPassed i session hi hgate =>
    have hp := h.vetted_of hi
    refine h.move ⟨hp.1, hp.2, h.users, ?_⟩
    by_cases honion : OnionName session.host
    · obtain ⟨hglobal, haccount⟩ := hgate ((isOnion_iff _).2 honion)
      refine .inr ⟨hglobal, (onionPermitted_iff.1 haccount).imp_right ?_⟩
      rintro ⟨name, hname, hgranted⟩
      exact ⟨name, hp.2 name hname, hgranted⟩
    · exact .inl honion
  | @cleared i session users known hi hgate =>
    obtain ⟨hingress, hhonest, hreg, honion⟩ := h.vetted_of hi
    refine h.move ⟨⟨hingress, (clientPermitted_iff.1 hgate).imp_right ?_, honion⟩, hreg, h.users⟩
    rintro ⟨-, name, hname, hgranted⟩
    exact ⟨name, hhonest name hname, hgranted⟩
  | noTunnel tunnel e hi => exact h.refuse e
  | notConnected e hi => exact h.refuse _
  | @dialed i c tunnel hi =>
    have hp := h.vetted_of hi
    refine ⟨h.users, fun j => ?_, List.forall_mem_cons.2 ⟨hp, h.dials⟩,
      fun c' hc' => List.mem_cons_of_mem c (h.payloads c' hc')⟩
    rcases eq_or_ne j i with rfl | hj
    · rw [State.dial, State.move_self]
      exact List.mem_cons_self
    · rw [State.dial, State.move_of_ne _ hj]
      exact (h.vetted j).mono (fun _ => id) fun c' hc' => List.mem_cons_of_mem c hc'
  | @connected i c hi =>
    exact h.of_move rfl rfl rfl rfl (p := .established c) (h.vetted_of hi :) fun _ => .inl
  | @piped i c hi =>
    have hp := h.vetted_of hi
    exact h.send hp rfl rfl rfl (p := .relaying c) hp
  | notPiped e hi | relayed hi | notRelayed e hi =>
    exact h.send (h.vetted_of hi :) rfl rfl rfl trivial
  | @finished i error hi =>
    cases error <;> exact h.of_move rfl rfl rfl rfl trivial fun _ => .inl
  | swapped =>
    unfold State.swap
    split <;> exact { h with }
  | reloaded users =>
    have hreg : ∀ u ∈ s.history.registries, u ∈ users :: s.history.registries :=
      fun u hu => List.mem_cons_of_mem users hu
    refine ⟨List.mem_cons_self, fun j => (h.vetted j).mono hreg fun _ => id, fun c hc => ?_,
      h.payloads⟩
    obtain ⟨hadm, honion, hclient⟩ := h.dials c hc
    exact ⟨hadm, hreg _ honion, hreg _ hclient⟩
  | _ => exact h.move trivial

end Steps

/-! ### Whole runs -/

/-- **The egress gate.**  In every run, with any number of connections and whatever the clients, the
network and the operator do, every egress that is dialled is admitted by the policy, for registries
that have stood in memory; and payload is sent only to an egress that was dialled. -/
theorem egress_gate {cfg : Config} {users : UsersConfig} {as : List Action} {s : State}
    (h : (machine cfg).Run SdkHonest (init users) as s) :
    (∀ c ∈ s.history.dials, Admitted cfg c ∧ c.onionUsers ∈ s.history.registries ∧
      c.clientUsers ∈ s.history.registries) ∧
    ∀ c ∈ s.history.payloads, c ∈ s.history.dials := by
  have hg : Gated cfg s := h.invariant (I := Gated cfg)
    (fun _ _ _ hs hok hstep => hs.step hok (step_cases hstep)) (gated_init cfg users)
  exact ⟨hg.dials, hg.payloads⟩

/-- An account with a password that may open onion services. -/
def onionAccount : Users.User :=
  { name := "alice", hash := "$argon2id$", isEnabled := true, allowedOnion := true
    allowedClients := none, preSocks5 := none, postSocks5 := none }

/-- A proxy that asks for a password. -/
def guardedProxy : Config := ⟨AllowedClients.everyone, false, true, .upstream⟩

/-- A connection that authenticates, up to the end of its handshake. -/
def authenticate : List Action :=
  [.accept 0 (.v4 0x7f000001#32), .spawn 0,
    .verify 0 "alice" "secret" true]

/-- The way of a connection through the gates. -/
def passGates : List Action := [.onionGate 0, .clientGate 0 true, .dial 0 true]

/-- A handshake that asks for an onion service in the name of an account. -/
def onionHandshake : Action :=
  .handshake 0 (.accepted (some "alice")
    (some (['a', '.', 'o', 'n', 'i', 'o', 'n'], 80)) [])

theorem egress_gate_onion :
    ∃ s, (machine guardedProxy).exec (init ⟨[onionAccount]⟩)
        (authenticate ++ onionHandshake :: passGates) = some s ∧
      s.history.dials.length = 1 ∧ ∀ c ∈ s.history.dials, Admitted guardedProxy c := by
  have hbefore : ∀ a ∈ authenticate, ∀ s, SdkHonest s a := by
    rintro a ha s i name target pipeline peer verified rfl
    simp [authenticate] at ha
  have hafter : ∀ a ∈ passGates, ∀ s, SdkHonest s a := by
    rintro a ha s i name target pipeline peer verified rfl
    simp [passGates] at ha
  have hrun : (machine guardedProxy).Run SdkHonest (init ⟨[onionAccount]⟩) authenticate _ :=
    Machine.Run.of_exec_mem hbefore rfl
  have hshake : ∀ s peer, s.conns 0 = .handshaking peer [("alice", "secret")] →
      SdkHonest s onionHandshake := by
    -- The name was verified before the handshake came to its end.
    rintro s peer hs i name target pipeline peer' verified ⟨⟩ hi
    rw [hs] at hi
    cases hi
    exact ⟨"secret", List.mem_singleton_self _⟩
  refine ⟨_, rfl, rfl, fun c hc => ?_⟩
  exact ((egress_gate ((hrun.tail (hshake _ _ rfl) rfl).trans
    (Machine.Run.of_exec_mem hafter rfl))).1 c hc).1

end Server
