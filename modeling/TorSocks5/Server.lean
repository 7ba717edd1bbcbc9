/-
**The SOCKS5 server: one connection from its acceptance to its end.**

`accept_loop` takes a connection, drops it if the global client list does not allow its peer, and
spawns a task that runs `handle_client`: the handshake, the global and the per-account onion gate,
the per-account client list, the egress CONNECT through Tor or an upstream proxy, and the relay.
An error that `handle_client` returns is classified by its chain of causes, and the task counts it.
A separate task takes the counters over, one after the other, at the end of each window.
-/

import TorSocks5.Machine
import TorSocks5.UsersConfig

set_option autoImplicit false

namespace Server

open ClientAcl (IpAddr AllowedClients)
open Users (UsersConfig)

/-! ### Errors -/

/-- The kinds of I/O errors that the classification tells apart. -/
inductive IoErrorKind
  | connectionReset
  | connectionAborted
  | brokenPipe
  | unexpectedEof
  | other
  deriving DecidableEq

/-- The errors of the tunnel. -/
inductive TorError
  | connect
  | other
  deriving DecidableEq

/-- One cause of an error: its text, and what it is if it is an I/O or a tunnel error. -/
structure Cause where
  text : String
  io : Option IoErrorKind
  tor : Option TorError
  deriving DecidableEq

/-- A cause that is only a text. -/
def Cause.message (text : String) : Cause := ⟨text, none, none⟩

/-- An error as the chain of its causes, the outermost first. -/
abbrev Chain := List Cause

/-- `Error::context`. -/
def context (tag : String) (e : Chain) : Chain := Cause.message tag :: e

def stageHandshake : String := "SOCKS5 handshake"
def stageConnectTor : String := "tor connect"
def stageConnectUpstream : String := "upstream connect"
def stageRelay : String := "relay"

/-- Who is to blame for a failure. -/
inductive ConnErrorKind
  | client
  | tor
  | relay
  | other
  deriving DecidableEq

/-- The stage a connection failed at. -/
inductive ConnStage
  | handshake
  | connect
  | relay
  | other
  deriving DecidableEq

/-- The stage in a chain: the relay tag wins over the handshake tag, and that one over the tags of
the CONNECT. -/
def stageOf (e : Chain) : ConnStage :=
  if e.any fun cause => cause.text == stageRelay then .relay
  else if e.any fun cause => cause.text == stageHandshake then .handshake
  else if e.any fun cause =>
      cause.text == stageConnectTor || cause.text == stageConnectUpstream then .connect
  else .other

/-- Whether a chain holds an I/O error that looks like a dropped connection. -/
def isDropishIo (e : Chain) : Bool :=
  e.any fun cause =>
    match cause.io with
    | some .other => false
    | some _ => true
    | none => false

/-- `classify_conn_failure`. -/
def classifyConnFailure (e : Chain) : ConnStage × ConnErrorKind :=
  let stage := stageOf e
  if e.any fun cause => cause.tor == some .connect then (stage, .tor)
  else
    let kind :=
      match stage with
      | .handshake => .client
      | .relay => if isDropishIo e then .relay else .other
      | .connect => .other
      | .other => if isDropishIo e then .client else .other
    (stage, kind)

/-! ### Counters -/

/-- The counters of a window. -/
inductive Counter
  | started
  | connectOk
  | connectFailed
  | relayClosed
  | relayErrors
  | clientErrors
  | torErrors
  | otherErrors
  deriving DecidableEq

/-- The order in which `snapshot_and_reset` takes the counters over. -/
def Counter.order : List Counter :=
  [.started, .connectOk, .connectFailed, .relayClosed,
    .relayErrors, .clientErrors, .torErrors, .otherErrors]

/-- The values of the counters, each a `u64`. -/
abbrev Counts := Counter → ℕ

/-- The values a `u64` can take. -/
def counterSize : ℕ := 2 ^ 64

/-- `fetch_add(1)`. -/
def bump (c : Counts) (k : Counter) : Counts :=
  Function.update c k ((c k + 1) % counterSize)

/-- The counter of an error kind. -/
def ConnErrorKind.counter : ConnErrorKind → Counter
  | .client => .clientErrors
  | .tor => .torErrors
  | .relay => .relayErrors
  | .other => .otherErrors

/-- `record_error`. -/
def recordError (c : Counts) (kind : ConnErrorKind) : Counts := bump c kind.counter

/-- `record_failure`. -/
def recordFailure (c : Counts) (stage : ConnStage) (kind : ConnErrorKind) : Counts :=
  let c := recordError c kind
  if stage = .connect then bump c .connectFailed else c

/-! ### Gates -/

/-- `str::rsplit_once('.')`: the parts around the last dot. -/
def rsplitDot : List Char → Option (List Char × List Char)
  | [] => none
  | c :: cs =>
    match rsplitDot cs with
    | some (a, b) => some (c :: a, b)
    | none => if c = '.' then some ([], cs) else none

/-- `str::trim_end_matches('.')`. -/
def trimEndDots (host : List Char) : List Char :=
  (host.reverse.dropWhile fun c => c == '.').reverse

/-- `str::to_ascii_lowercase`. -/
def toAsciiLowercase (text : List Char) : List Char := text.map Char.toLower

/-- `is_onion`. -/
def isOnion (host : List Char) : Bool :=
  match rsplitDot (trimEndDots host) with
  | some (_, tld) => toAsciiLowercase tld == ['o', 'n', 'i', 'o', 'n']
  | none => false

/-- Where connections leave the proxy. -/
inductive Egress
  | tor
  | upstream
  deriving DecidableEq

/-- The settings of a listener. -/
structure Config where
  /-- `security.client_access.allowed_clients`. -/
  allowedClients : AllowedClients
  /-- `security.block_onion`. -/
  blockOnion : Bool
  /-- Whether there is an `AuthState`. -/
  auth : Bool
  egress : Egress

/-- `onion_permitted`. -/
def onionPermitted (cfg : Config) (users : UsersConfig) (username : Option String) : Bool :=
  match cfg.auth, username with
  | false, _ => true
  | true, some name => users.allowedOnion name
  | true, none => false

/-- The per-account client gate: no account on an authenticated connection and no known peer are
refusals. -/
def clientPermitted (cfg : Config) (users : UsersConfig) (username : Option String)
    (peer : Option IpAddr) : Bool :=
  match cfg.auth, username, peer with
  | true, some name, some peer => users.clientAllowed name peer
  | true, _, _ => false
  | false, _, _ => true

/-! ### Connections -/

/-- A request, after the handshake. -/
structure Session where
  /-- The address the connection was accepted from. -/
  peer : IpAddr
  /-- The credentials the verifier has accepted on this connection. -/
  verified : List (String × String)
  /-- The user name the SDK reports. -/
  username : Option String
  host : List Char
  port : ℕ
  pipeline : List UInt8
  deriving DecidableEq

/-- A session that has passed the gates, with the registries the gates have read. -/
structure Clearance where
  session : Session
  onionUsers : UsersConfig
  clientUsers : UsersConfig
  deriving DecidableEq

/-- Where a connection stands. -/
inductive Phase
  | idle
  /-- Accepted; the task waits for its permit. -/
  | queued (peer : IpAddr)
  /-- The task runs, and the SDK talks to the client. -/
  | handshaking (peer : IpAddr) (verified : List (String × String))
  /-- The request is known. -/
  | requested (session : Session)
  /-- The onion gates are passed. -/
  | onionPassed (session : Session) (onionUsers : UsersConfig)
  /-- All gates are passed. -/
  | cleared (c : Clearance)
  /-- The egress CONNECT is under way. -/
  | dialing (c : Clearance)
  /-- The egress is open; the client is to be told. -/
  | established (c : Clearance)
  /-- The bytes the client sent early are to be forwarded. -/
  | piping (c : Clearance)
  /-- The relay runs. -/
  | relaying (c : Clearance)
  /-- `handle_client` has returned. -/
  | returned (error : Option Chain)
  | ended
  deriving DecidableEq

/-- What the handshake comes to. -/
inductive Handshake
  | failed (e : Chain)
  /-- The target is `none` if it is no authority. -/
  | accepted (username : Option String) (target : Option (List Char × ℕ)) (pipeline : List UInt8)

/-- What has happened so far. -/
structure History where
  /-- The connections that were started. -/
  started : List ℕ
  /-- Those whose egress CONNECT succeeded. -/
  connected : List ℕ
  /-- Those whose CONNECT stage failed. -/
  refused : List ℕ
  /-- Those whose error was classified as one of the CONNECT stage. -/
  filed : List ℕ
  /-- The egress connections that were attempted. -/
  dials : List Clearance
  /-- The sessions that sent payload to an egress. -/
  payloads : List Clearance
  /-- The registries that have stood in memory. -/
  registries : List UsersConfig

/-- The state of the server. -/
structure State where
  users : UsersConfig
  counts : Counts
  pending : ℕ
  conns : ℕ → Phase
  /-- The counters the running snapshot has still to take over. -/
  todo : List Counter
  /-- What it has taken over. -/
  taken : Counts
  /-- The finished windows, the last one first, each with the gauge it read. -/
  windows : List (Counts × ℕ)
  history : History

/-- The server before the first connection. -/
def init (users : UsersConfig) : State where
  users := users
  counts := fun _ => 0
  pending := 0
  conns := fun _ => .idle
  todo := Counter.order
  taken := fun _ => 0
  windows := []
  history := ⟨[], [], [], [], [], [], [users]⟩

/-- The atomic steps. -/
inductive Action
  /-- The listener accepts a connection. -/
  | accept (i : ℕ) (peer : IpAddr)
  /-- The task gets its permit and starts. -/
  | spawn (i : ℕ)
  /-- The SDK calls the verifier, which says `ok`. -/
  | verify (i : ℕ) (name password : String) (ok : Bool)
  | handshake (i : ℕ) (result : Handshake)
  | onionGate (i : ℕ)
  /-- `known` says whether the socket tells its peer. -/
  | clientGate (i : ℕ) (known : Bool)
  /-- The egress is dialled; `tunnel` says whether there is a tunnel. -/
  | dial (i : ℕ) (tunnel : Bool)
  | connect (i : ℕ) (error : Option Chain)
  /-- The client is told that the egress is established. -/
  | reply (i : ℕ) (error : Option Chain)
  /-- The early bytes are written to the egress. -/
  | pipe (i : ℕ) (error : Option Chain)
  /-- The relay ends. -/
  | relay (i : ℕ) (error : Option Chain)
  /-- The task classifies and counts the error, if there is one, and ends. -/
  | finish (i : ℕ)
  /-- The logger takes a counter over, or completes its window. -/
  | swap
  /-- The registry in memory is replaced. -/
  | reload (users : UsersConfig)

/-- The connection `i` goes on to the phase `p`. -/
def State.move (s : State) (i : ℕ) (p : Phase) : State :=
  { s with conns := Function.update s.conns i p }

/-- Count an event of the connection `i`. -/
def State.count (s : State) (k : Counter) : State := { s with counts := bump s.counts k }

/-- The CONNECT stage of the connection `i` fails. -/
def State.refuse (s : State) (i : ℕ) (e : Chain) : State :=
  ({ s with history := { s.history with refused := i :: s.history.refused } }.count
    .connectFailed).move i (.returned (some e))

/-- The egress of a cleared session is dialled. -/
def State.dial (s : State) (i : ℕ) (c : Clearance) : State :=
  { s with history := { s.history with dials := c :: s.history.dials } }.move i (.dialing c)

/-- The tag of a failed CONNECT. -/
def Config.connectTag (cfg : Config) : String :=
  match cfg.egress with
  | .tor => stageConnectTor
  | .upstream => stageConnectUpstream

/-- `client.peer_addr().ok()`: the peer of the accepted socket, if the socket tells it. -/
def peerAddr (known : Bool) (peer : IpAddr) : Option IpAddr := if known then some peer else none

/-- The session of a finished handshake, or the error it ends with. -/
def sessionOf (peer : IpAddr) (verified : List (String × String)) : Handshake → Except Chain Session
  | .failed e => Except.error (context stageHandshake e)
  | .accepted _ none _ =>
    Except.error (context stageHandshake
      [Cause.message "SDK returned an invalid target authority"])
  | .accepted username (some (host, port)) pipeline =>
    Except.ok ⟨peer, verified, username, host, port, pipeline⟩

/-- The session sends payload to its egress. -/
def State.send (s : State) (c : Clearance) : State :=
  { s with history := { s.history with payloads := c :: s.history.payloads } }

/-- The task of a connection ends: an error is classified and counted. -/
def State.finish (s : State) (i : ℕ) (error : Option Chain) : State :=
  let s := { s with pending := s.pending - 1 }.move i .ended
  match error with
  | none => s
  | some e =>
    let (stage, kind) := classifyConnFailure e
    { s with
      counts := recordFailure s.counts stage kind
      history := { s.history with
        filed := if stage = .connect then i :: s.history.filed else s.history.filed } }

/-- The logger takes a counter over, or reads the gauge and completes its window. -/
def State.swap (s : State) : State :=
  match s.todo with
  | k :: rest =>
    { s with
      todo := rest
      taken := Function.update s.taken k (s.counts k)
      counts := Function.update s.counts k 0 }
  | [] =>
    { s with
      todo := Counter.order
      taken := fun _ => 0
      windows := (s.taken, s.pending) :: s.windows }

/-- The successor of a state. -/
def step (cfg : Config) (s : State) : Action → Option State
  | .accept i peer =>
    match s.conns i with
    | .idle =>
      -- The global list is asked first; a refused connection is dropped without a byte.
      some (s.move i (if cfg.allowedClients.allows peer then .queued peer else .ended))
    | _ => none
  | .spawn i =>
    match s.conns i with
    | .queued peer =>
      some (({ s with
        pending := s.pending + 1
        history := { s.history with started := i :: s.history.started } }.count
          .started).move i (.handshaking peer []))
    | _ => none
  | .verify i name password ok =>
    match s.conns i with
    | .handshaking peer verified =>
      -- Without an `AuthState` there is no verifier to accept anything.
      some (s.move i (.handshaking peer
        (if cfg.auth && ok then (name, password) :: verified else verified)))
    | _ => none
  | .handshake i result =>
    match s.conns i with
    | .handshaking peer verified =>
      match sessionOf peer verified result with
      | Except.error e => some (s.move i (.returned (some e)))
      | Except.ok session => some (s.move i (.requested session))
    | _ => none
  | .onionGate i =>
    match s.conns i with
    | .requested session =>
      if cfg.blockOnion && isOnion session.host then some (s.move i (.returned none))
      else if isOnion session.host && !onionPermitted cfg s.users session.username then
        some (s.move i (.returned none))
      else some (s.move i (.onionPassed session s.users))
    | _ => none
  | .clientGate i known =>
    match s.conns i with
    | .onionPassed session onionUsers =>
      if clientPermitted cfg s.users session.username (peerAddr known session.peer) then
        some (s.move i (.cleared ⟨session, onionUsers, s.users⟩))
      else some (s.move i (.returned none))
    | _ => none
  | .dial i tunnel =>
    match s.conns i with
    | .cleared c =>
      match cfg.egress, tunnel with
      | .tor, false =>
        some (s.refuse i (context stageConnectTor
          [Cause.message "tor tunnel unavailable (shutting down?)"]))
      | _, _ => some (s.dial i c)
    | _ => none
  | .connect i error =>
    match s.conns i, error with
    | .dialing c, none =>
      some (({ s with history := { s.history with connected := i :: s.history.connected } }.count
        .connectOk).move i (.established c))
    | .dialing _, some e => some (s.refuse i (context cfg.connectTag e))
    | _, _ => none
  | .reply i error =>
    match s.conns i, error with
    | .established c, none => some (s.move i (.piping c))
    | .established _, some e => some (s.move i (.returned (some e)))
    | _, _ => none
  | .pipe i error =>
    match s.conns i, error with
    | .piping c, none => some ((s.send c).move i (.relaying c))
    | .piping c, some e =>
      some ((s.send c).move i (.returned (some (context stageRelay e))))
    | _, _ => none
  | .relay i error =>
    match s.conns i, error with
    | .relaying c, none =>
      some (((s.send c).count .relayClosed).move i (.returned none))
    | .relaying c, some e =>
      some ((s.send c).move i (.returned (some (context stageRelay e))))
    | _, _ => none
  | .finish i =>
    match s.conns i with
    | .returned error => some (s.finish i error)
    | _ => none
  | .swap => some s.swap
  | .reload users =>
    some { s with
      users := users
      history := { s.history with registries := users :: s.history.registries } }

/-- The server as a machine. -/
def machine (cfg : Config) : Machine State Action := ⟨step cfg⟩

/-! ### Inversion -/

/-- The steps, one constructor for each way a step may go. -/
inductive Step (cfg : Config) (s : State) : Action → State → Prop
  | accepted {i : ℕ} {peer : IpAddr} : s.conns i = .idle →
      cfg.allowedClients.allows peer = true →
      Step cfg s (.accept i peer) (s.move i (.queued peer))
  | dropped {i : ℕ} {peer : IpAddr} : s.conns i = .idle →
      Step cfg s (.accept i peer) (s.move i .ended)
  | spawned {i : ℕ} {peer : IpAddr} : s.conns i = .queued peer →
      Step cfg s (.spawn i) (({ s with
        pending := s.pending + 1
        history := { s.history with started := i :: s.history.started } }.count
          .started).move i (.handshaking peer []))
  | verified {i : ℕ} {peer : IpAddr} {verified : List (String × String)}
      (name password : String) (ok : Bool) : s.conns i = .handshaking peer verified →
      Step cfg s (.verify i name password ok) (s.move i (.handshaking peer
        (if cfg.auth && ok then (name, password) :: verified else verified)))
  | handshakeFailed {i : ℕ} {peer : IpAddr} {verified : List (String × String)}
      {result : Handshake} {e : Chain} : s.conns i = .handshaking peer verified →
      sessionOf peer verified result = Except.error e →
      Step cfg s (.handshake i result) (s.move i (.returned (some e)))
  | requested {i : ℕ} {peer : IpAddr} {verified : List (String × String)}
      {result : Handshake} {session : Session} : s.conns i = .handshaking peer verified →
      sessionOf peer verified result = Except.ok session →
      Step cfg s (.handshake i result) (s.move i (.requested session))
  | onionRefused {i : ℕ} {session : Session} : s.conns i = .requested session →
      Step cfg s (.onionGate i) (s.move i (.returned none))
  | onionPassed {i : ℕ} {session : Session} : s.conns i = .requested session →
      (isOnion session.host = true →
        cfg.blockOnion = false ∧ onionPermitted cfg s.users session.username = true) →
      Step cfg s (.onionGate i) (s.move i (.onionPassed session s.users))
  | clientRefused {i : ℕ} {session : Session} {users : UsersConfig} (known : Bool) :
      s.conns i = .onionPassed session users →
      Step cfg s (.clientGate i known) (s.move i (.returned none))
  | cleared {i : ℕ} {session : Session} {users : UsersConfig} {known : Bool} :
      s.conns i = .onionPassed session users →
      clientPermitted cfg s.users session.username (peerAddr known session.peer) = true →
      Step cfg s (.clientGate i known) (s.move i (.cleared ⟨session, users, s.users⟩))
  | noTunnel {i : ℕ} {c : Clearance} (tunnel : Bool) (e : Chain) : s.conns i = .cleared c →
      Step cfg s (.dial i tunnel) (s.refuse i e)
  | dialed {i : ℕ} {c : Clearance} (tunnel : Bool) : s.conns i = .cleared c →
      Step cfg s (.dial i tunnel) (s.dial i c)
  | connected {i : ℕ} {c : Clearance} : s.conns i = .dialing c →
      Step cfg s (.connect i none)
        (({ s with history := { s.history with connected := i :: s.history.connected } }.count
          .connectOk).move i (.established c))
  | notConnected {i : ℕ} {c : Clearance} (e : Chain) : s.conns i = .dialing c →
      Step cfg s (.connect i (some e)) (s.refuse i (context cfg.connectTag e))
  | replied {i : ℕ} {c : Clearance} : s.conns i = .established c →
      Step cfg s (.reply i none) (s.move i (.piping c))
  | notReplied {i : ℕ} {c : Clearance} (e : Chain) : s.conns i = .established c →
      Step cfg s (.reply i (some e)) (s.move i (.returned (some e)))
  | piped {i : ℕ} {c : Clearance} : s.conns i = .piping c →
      Step cfg s (.pipe i none) ((s.send c).move i (.relaying c))
  | notPiped {i : ℕ} {c : Clearance} (e : Chain) : s.conns i = .piping c →
      Step cfg s (.pipe i (some e))
        ((s.send c).move i (.returned (some (context stageRelay e))))
  | relayed {i : ℕ} {c : Clearance} : s.conns i = .relaying c →
      Step cfg s (.relay i none)
        (((s.send c).count .relayClosed).move i (.returned none))
  | notRelayed {i : ℕ} {c : Clearance} (e : Chain) : s.conns i = .relaying c →
      Step cfg s (.relay i (some e))
        ((s.send c).move i (.returned (some (context stageRelay e))))
  | finished {i : ℕ} {error : Option Chain} : s.conns i = .returned error →
      Step cfg s (.finish i) (s.finish i error)
  | swapped : Step cfg s .swap s.swap
  | reloaded (users : UsersConfig) : Step cfg s (.reload users) { s with
      users := users
      history := { s.history with registries := users :: s.history.registries } }

theorem step_cases {cfg : Config} {s t : State} {a : Action} (h : step cfg s a = some t) :
    Step cfg s a t := by
  cases a <;> simp only [step] at h <;> grind [Step]

@[simp] theorem State.move_self (s : State) (i : ℕ) (p : Phase) : (s.move i p).conns i = p :=
  Function.update_self ..

@[simp] theorem State.move_of_ne (s : State) {i j : ℕ} (h : j ≠ i) (p : Phase) :
    (s.move i p).conns j = s.conns j := Function.update_of_ne h ..

end Server
