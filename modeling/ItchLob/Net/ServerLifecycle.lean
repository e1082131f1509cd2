import ItchLob.Shared.Fairness
import ItchLob.Net.ConnectionTurns

set_option autoImplicit false

namespace ItchLob.Net

namespace Lifecycle

/-- Who a file descriptor of the process belongs to. `pending` is a connection
that accept has returned and no thread has been started for. -/
inductive Owner where
  | listener
  | pending
  | client (ticket : Nat)
  | elsewhere
  deriving DecidableEq, Repr

structure Thread where
  fd : Nat
  connection : Talk
  done : Bool := false

-- `reaping next` is the loop of reap_finished_connections, which holds the mutex.
inductive Accepting where
  | notStarted
  | check
  | reaping (next : Nat)
  | polling
  | accepting
  | admitting (fd : Nat)
  | exited
  deriving DecidableEq, Repr

-- The call of stop that found the flag clear; `joining` holds the swapped vector.
inductive Stopping where
  | idle
  | closing
  | clearing
  | joiningAccept
  | swapping
  | joining (threads : List Nat)
  | returned
  deriving DecidableEq, Repr

/-- A thread's ticket is its place in `threads`, which never shrinks. `owner` is
the descriptor table of the process; `joined` and `closes` are ghosts: the
threads joined so far, and for every close the owner it was meant for and the
one it hit. -/
structure Server where
  stopRequested : Bool := false
  listenFd : Option Nat
  accepting : Accepting := .notStarted
  stopping : Stopping := .idle
  threads : List Thread := []
  connThreads : List Nat := []
  owner : Nat → Option Owner
  joined : List Nat := []
  closes : List (Owner × Option Owner) := []

structure Answer where
  ready : Bool := false
  fd : Option Nat := none
  now : Nat := 0

/-- One atomic turn: a caller's, a thread's, or of other code in the process. For a
connection `received` and now are what its recv returns, `sent` what its send does if
it comes back at all. -/
inductive Turn where
  | start
  | stop
  | accept (answer : Answer)
  | stopper
  | connection (ticket : Nat) (store : QueryServer) (received : Received) (now : Nat) (sent : Option Sent)
  | opens (fd : Nat)
  | closes (fd : Nat)

def kMaxConnections : Nat := 256

namespace Server

def done (s : Server) (ticket : Nat) : Bool := (s.threads[ticket]?.map Thread.done).getD false

def own (s : Server) (fd : Nat) (owner : Option Owner) : Server :=
  { s with owner := fun f => if f = fd then owner else s.owner f }

def close (s : Server) (fd : Nat) (meant : Owner) : Server :=
  { s.own fd none with closes := s.closes ++ [(meant, s.owner fd)] }

def join (s : Server) (ticket : Nat) : Server := { s with joined := s.joined ++ [ticket] }

-- At capacity the connection is closed at once.
def acceptClient (s : Server) (fd : Nat) (answer : Answer) : Server :=
  if kMaxConnections ≤ s.connThreads.length then { s.close fd .pending with accepting := .check }
  else
    { s.own fd (some (.client s.threads.length)) with
      threads := s.threads ++ [{ fd, connection := { lastActivity := answer.now } }]
      connThreads := s.connThreads ++ [s.threads.length]
      accepting := .check }

-- A closed number gives no connection, one that stop has closed and other code has
-- opened again may. The kernel gives out free numbers only: an answer with any other
-- stands for a call that fails.
def accepted (s : Server) (answer : Answer) : Server :=
  match s.listenFd, answer.fd with
  | some l, some fd =>
    if s.owner l ≠ none ∧ s.owner fd = none then
      { s.own fd (some .pending) with accepting := .admitting fd }
    else { s with accepting := .check }
  | _, _ => { s with accepting := .check }

def acceptTurn (s : Server) (answer : Answer) : Option Server :=
  match s.accepting with
  | .notStarted | .exited => none
  | .check => some { s with accepting := if s.stopRequested then .exited else .reaping 0 }
  | .reaping next =>
    match s.connThreads[next]? with
    | none => some { s with accepting := .polling }
    | some ticket =>
      if s.done ticket then some { s.join ticket with connThreads := s.connThreads.eraseIdx next }
      else some { s with accepting := .reaping (next + 1) }
  | .polling => some { s with accepting := if answer.ready then .accepting else .check }
  | .accepting => some (s.accepted answer)
  | .admitting fd => some (s.acceptClient fd answer)

def stopperTurn (s : Server) : Option Server :=
  match s.stopping with
  | .idle | .returned => none
  | .closing =>
    match s.listenFd with
    | some l => some { s.close l .listener with stopping := .clearing }
    | none => some { s with stopping := .joiningAccept }
  | .clearing => some { s with listenFd := none, stopping := .joiningAccept }
  | .joiningAccept =>
    match s.accepting with
    | .notStarted | .exited => some { s with stopping := .swapping }
    | _ => none
  | .swapping =>
    match s.accepting with
    | .reaping _ => none
    | _ => some { s with connThreads := [], stopping := .joining s.connThreads }
  | .joining [] => some { s with stopping := .returned }
  | .joining (ticket :: rest) =>
    if s.done ticket then some { s.join ticket with stopping := .joining rest } else none

-- One call of handle_connection, or the store of the flag after it.
def connectionTurn (s : Server) (ticket : Nat) (store : QueryServer) (received : Received) (now : Nat)
    (sent : Option Sent) : Option Server :=
  match s.threads[ticket]? with
  | none => none
  | some t =>
    if t.done then none
    else if t.connection.closed then some { s with threads := s.threads.set ticket { t with done := true } }
    else
      let connection := store.turn t.connection { stopRequested := s.stopRequested, received, now } sent
      let next := { s with threads := s.threads.set ticket { t with connection } }
      if connection.closed then some (next.close t.fd (.client ticket)) else some next

end Server

-- Callers start a server once, before they stop it; a later stop returns at once.
def step (s : Server) : Turn → Option Server
  | .start =>
    if s.accepting = .notStarted ∧ s.stopRequested = false then some { s with accepting := .check } else none
  | .stop => if s.stopRequested then some s else some { s with stopRequested := true, stopping := .closing }
  | .accept answer => s.acceptTurn answer
  | .stopper => s.stopperTurn
  | .connection ticket store received now sent => s.connectionTurn ticket store received now sent
  | .opens fd => if s.owner fd = none then some (s.own fd (some .elsewhere)) else none
  | .closes fd => if s.owner fd = some .elsewhere then some (s.own fd none) else none

structure Constructed (s : Server) (fd : Nat) : Prop where
  fresh : ∃ owner, s = { listenFd := some fd, owner }
  listens : s.owner fd = some .listener
  others : ∀ f, f ≠ fd → s.owner f = none ∨ s.owner f = some .elsewhere

def Stopping.held : Stopping → List Nat
  | .joining threads => threads
  | _ => []

def Stopping.listens : Stopping → Bool
  | .idle | .closing => true
  | _ => false

def Stopping.numbered : Stopping → Bool
  | .idle | .closing | .clearing => true
  | _ => false

def Stopping.drains : Stopping → Bool
  | .swapping | .joining _ | .returned => true
  | _ => false

def Stopping.swapped : Stopping → Bool
  | .joining _ | .returned => true
  | _ => false

def Accepting.gone : Accepting → Bool
  | .notStarted | .exited => true
  | _ => false

theorem Stopping.swapped_drains {stopping : Stopping} (swapped : stopping.swapped = true) :
    stopping.drains = true := by
  cases stopping <;> first | rfl | cases swapped

structure Control (s : Server) : Prop where
  flag : s.stopRequested = true ↔ s.stopping ≠ .idle
  quiet : s.stopping.drains = true → s.accepting.gone = true
  emptied : s.stopping.swapped = true → s.connThreads = []
  capped : s.connThreads.length ≤ kMaxConnections
  tracked : (s.joined ++ s.connThreads ++ s.stopping.held).Perm (List.range s.threads.length)
  finished : ∀ ticket ∈ s.joined, s.done ticket = true

variable {s s' : Server}

theorem Control.moves (control : Control s) (next : Accepting)
    (quiet : s.stopping.drains = true → next.gone = true) : Control { s with accepting := next } :=
  ⟨control.flag, quiet, control.emptied, control.capped, control.tracked, control.finished⟩

theorem Control.owns (control : Control s) (fd : Nat) (owner : Option Owner) : Control (s.own fd owner) :=
  ⟨control.flag, control.quiet, control.emptied, control.capped, control.tracked, control.finished⟩

theorem Control.closed (control : Control s) (fd : Nat) (meant : Owner) : Control (s.close fd meant) :=
  ⟨control.flag, control.quiet, control.emptied, control.capped, control.tracked, control.finished⟩

theorem Control.reaped (control : Control s) {next ticket : Nat} (here : s.connThreads[next]? = some ticket)
    (finished : s.done ticket = true) :
    Control { s.join ticket with connThreads := s.connThreads.eraseIdx next } := by
  obtain ⟨inside, rfl⟩ := List.getElem?_eq_some_iff.mp here
  refine ⟨control.flag, control.quiet, fun swapped => ?_, ?_, ?_, fun i member => ?_⟩
  · change s.connThreads.eraseIdx next = []
    rw [control.emptied swapped]
    rfl
  · exact (List.length_eraseIdx_le ..).trans control.capped
  · change (s.joined ++ [s.connThreads[next]] ++ s.connThreads.eraseIdx next ++ s.stopping.held).Perm _
    refine .trans (.append_right _ ?_) control.tracked
    rw [List.append_assoc, List.singleton_append]
    exact (List.getElem_cons_eraseIdx_perm inside).append_left _
  · rcases List.mem_append.mp member with earlier | last
    · exact control.finished i earlier
    · rw [List.mem_singleton.mp last]
      exact finished

theorem done_lt {ticket : Nat} (finished : s.done ticket = true) : ticket < s.threads.length := by
  by_contra outside
  rw [Server.done, List.getElem?_eq_none (Nat.le_of_not_lt outside)] at finished
  cases finished

theorem Control.admitted (control : Control s) (running : s.stopping.drains = false) (fd : Nat) (answer : Answer) :
    Control (s.acceptClient fd answer) := by
  have busy (next : Accepting) : s.stopping.drains = true → next.gone = true := fun drains => by
    rw [running] at drains
    cases drains
  unfold Server.acceptClient
  split
  · exact (control.closed fd .pending).moves .check (busy _)
  next room =>
    refine ⟨control.flag, busy _, fun swapped => ?_, ?_, ?_, fun i member => ?_⟩
    · have drains : s.stopping.drains = true := Stopping.swapped_drains swapped
      rw [running] at drains
      cases drains
    · change (s.connThreads ++ [s.threads.length]).length ≤ _
      rw [List.length_append, List.length_singleton]
      omega
    · change (s.joined ++ (s.connThreads ++ [s.threads.length]) ++ s.stopping.held).Perm
        (List.range (s.threads ++ [_]).length)
      rw [List.length_append, List.length_singleton, List.range_succ, ← List.append_assoc]
      refine .trans ?_ (control.tracked.append_right [s.threads.length])
      rw [List.append_assoc, List.append_assoc, List.append_assoc, List.append_assoc]
      exact (List.perm_append_comm.append_left _).append_left _
    · have finished := control.finished i member
      rw [Server.done, List.getElem?_append_left (done_lt finished)]
      exact finished

theorem acceptTurn_control (control : Control s) {answer : Answer} (taken : s.acceptTurn answer = some s') :
    Control s' := by
  have busy (here : s.accepting.gone = false) : s.stopping.drains = false := by
    by_contra drains
    rw [control.quiet (by simpa using drains)] at here
    cases here
  have moves (here : s.accepting.gone = false) (next : Accepting) : Control { s with accepting := next } :=
    control.moves next fun drains => by
      rw [busy here] at drains
      cases drains
  unfold Server.acceptTurn at taken
  cases pc : s.accepting with
  | notStarted | exited =>
    rw [pc] at taken
    cases taken
  | check | polling =>
    rw [pc] at taken moves
    cases taken
    exact moves rfl _
  | reaping next =>
    rw [pc] at taken moves
    simp only at taken
    cases here : s.connThreads[next]? with
    | none =>
      rw [here] at taken
      cases taken
      exact moves rfl _
    | some ticket =>
      rw [here] at taken
      simp only at taken
      split at taken
      next finished =>
        cases taken
        exact control.reaped here finished
      next =>
        cases taken
        exact moves rfl _
  | accepting =>
    rw [pc] at taken moves busy
    cases taken
    unfold Server.accepted
    split
    · split
      · exact (control.owns _ _).moves _ fun drains => by
          rw [show s.stopping.drains = true from drains] at busy
          cases busy rfl
      · exact moves rfl _
    · exact moves rfl _
  | admitting fd =>
    rw [pc] at taken busy
    cases taken
    exact control.admitted (busy rfl) fd answer

theorem Control.advances (control : Control s) (next : Stopping) (busy : s.stopping ≠ .idle) (live : next ≠ .idle)
    (held : next.held = s.stopping.held) (quiet : next.drains = true → s.accepting.gone = true)
    (emptied : next.swapped = true → s.connThreads = []) : Control { s with stopping := next } := by
  refine ⟨⟨fun _ => live, fun _ => control.flag.mpr busy⟩, quiet, emptied, control.capped, ?_, control.finished⟩
  change (s.joined ++ s.connThreads ++ next.held).Perm _
  rw [held]
  exact control.tracked

theorem stopperTurn_control (control : Control s) (taken : s.stopperTurn = some s') : Control s' := by
  unfold Server.stopperTurn at taken
  cases pc : s.stopping with
  | idle | returned =>
    rw [pc] at taken
    cases taken
  | closing =>
    rw [pc] at taken
    simp only at taken
    split at taken
    next l numbered =>
      cases taken
      have closed : (s.close l .listener).stopping = .closing := pc
      exact (control.closed l .listener).advances .clearing (by simp [closed]) (by simp) (by rw [closed]; rfl)
        (fun drains => by cases drains) fun swapped => by cases swapped
    next =>
      cases taken
      exact control.advances .joiningAccept (by simp [pc]) (by simp) (by rw [pc]; rfl)
        (fun drains => by cases drains) fun swapped => by cases swapped
  | clearing =>
    rw [pc] at taken
    cases taken
    have next := control.advances .joiningAccept (by simp [pc]) (by simp) (by rw [pc]; rfl)
      (fun drains => by cases drains) fun swapped => by cases swapped
    exact ⟨next.flag, next.quiet, next.emptied, next.capped, next.tracked, next.finished⟩
  | joiningAccept =>
    rw [pc] at taken
    have joined (gone : s.accepting.gone = true) : Control { s with stopping := .swapping } :=
      control.advances .swapping (by simp [pc]) (by simp) (by rw [pc]; rfl) (fun _ => gone)
        fun swapped => by cases swapped
    cases at_pc : s.accepting with
    | notStarted | exited =>
      rw [at_pc] at taken joined
      cases taken
      exact joined rfl
    | _ =>
      rw [at_pc] at taken
      cases taken
  | swapping =>
    have quiet := control.quiet (by rw [pc]; rfl)
    have swapped : s.stopperTurn = some s' →
        s' = { s with connThreads := [], stopping := .joining s.connThreads } := by
      unfold Server.stopperTurn
      rw [pc]
      cases at_pc : s.accepting with
      | reaping next =>
        rw [at_pc] at quiet
        cases quiet
      | _ =>
        intro same
        cases same
        rfl
    have tracked := control.tracked
    rw [pc] at tracked
    rw [swapped taken]
    refine ⟨⟨fun _ => by simp, fun _ => control.flag.mpr (by simp [pc])⟩, fun _ => quiet, fun _ => rfl,
      Nat.zero_le _, ?_, control.finished⟩
    change (s.joined ++ [] ++ s.connThreads).Perm _
    simpa [Stopping.held] using tracked
  | joining threads =>
    have quiet := control.quiet (by rw [pc]; rfl)
    have emptied := control.emptied (by rw [pc]; rfl)
    rw [pc] at taken
    cases threads with
    | nil =>
      cases taken
      exact control.advances .returned (by simp [pc]) (by simp) (by rw [pc]; rfl) (fun _ => quiet) fun _ => emptied
    | cons ticket rest =>
      simp only at taken
      split at taken
      next finished =>
        cases taken
        have tracked := control.tracked
        rw [pc, emptied] at tracked
        refine ⟨⟨fun _ => by simp, fun _ => control.flag.mpr (by simp [pc])⟩, fun _ => quiet, fun _ => emptied,
          control.capped, ?_, fun i member => ?_⟩
        · change (s.joined ++ [ticket] ++ s.connThreads ++ rest).Perm (List.range s.threads.length)
          rw [emptied]
          simpa [Stopping.held] using tracked
        · rcases List.mem_append.mp member with earlier | last
          · exact control.finished i earlier
          · rw [List.mem_singleton.mp last]
            exact finished
      next => cases taken

theorem done_set {ticket : Nat} {t t' : Thread} (here : s.threads[ticket]? = some t)
    (kept : t.done = true → t'.done = true)
    {i : Nat} (finished : s.done i = true) : ((s.threads.set ticket t')[i]?.map Thread.done).getD false = true := by
  by_cases same : ticket = i
  · subst same
    rw [Server.done, here] at finished
    rw [List.getElem?_set_self (done_lt (s := s) (by rw [Server.done, here]; exact finished))]
    exact kept finished
  · rw [List.getElem?_set_ne same]
    exact finished

theorem Control.served (control : Control s) {ticket : Nat} {t : Thread} (here : s.threads[ticket]? = some t)
    (t' : Thread) (kept : t.done = true → t'.done = true) :
    Control { s with threads := s.threads.set ticket t' } := by
  refine ⟨control.flag, control.quiet, control.emptied, control.capped, ?_, fun i member => ?_⟩
  · change (s.joined ++ s.connThreads ++ s.stopping.held).Perm (List.range (s.threads.set ticket t').length)
    rw [List.length_set]
    exact control.tracked
  · exact done_set here kept (control.finished i member)

theorem connectionTurn_control (control : Control s) {ticket : Nat} {store : QueryServer} {received : Received}
    {now : Nat} {sent : Option Sent} (taken : s.connectionTurn ticket store received now sent = some s') :
    Control s' := by
  unfold Server.connectionTurn at taken
  cases here : s.threads[ticket]? with
  | none =>
    rw [here] at taken
    cases taken
  | some t =>
    rw [here] at taken
    simp only at taken
    split at taken
    · cases taken
    next running =>
      split at taken
      · cases taken
        exact control.served here _ fun _ => rfl
      · split at taken
        · cases taken
          have served := control.served here
            { t with connection := store.turn t.connection { stopRequested := s.stopRequested, received, now } sent } id
          exact served.closed _ _
        · cases taken
          exact control.served here _ id

theorem step_control (control : Control s) {turn : Turn} (taken : step s turn = some s') : Control s' := by
  cases turn with
  | accept answer => exact acceptTurn_control control taken
  | stopper => exact stopperTurn_control control taken
  | connection ticket store received now sent => exact connectionTurn_control control taken
  | start =>
    simp only [step] at taken
    split at taken
    next fresh =>
      cases taken
      refine control.moves .check fun drains => ?_
      have idle : s.stopping = .idle := by
        by_contra busy
        have requested := control.flag.mpr busy
        rw [fresh.2] at requested
        cases requested
      rw [idle] at drains
      cases drains
    next => cases taken
  | stop =>
    simp only [step] at taken
    split at taken
    · cases taken
      exact control
    next clear =>
      cases taken
      have idle : s.stopping = .idle := by
        by_contra busy
        exact clear (control.flag.mpr busy)
      refine ⟨⟨fun _ => by simp, fun _ => rfl⟩, fun drains => (by cases drains), fun swapped => (by cases swapped),
        control.capped, ?_, control.finished⟩
      have tracked := control.tracked
      rw [idle] at tracked
      exact tracked
  | opens fd | closes fd =>
    simp only [step] at taken
    split at taken
    · cases taken
      exact control.owns _ _
    · cases taken

structure Descriptors (s : Server) : Prop where
  listener : ∀ fd, s.owner fd = some .listener ↔ s.listenFd = some fd ∧ s.stopping.listens = true
  numbered : s.stopping.numbered = false → s.listenFd = none
  pending : ∀ fd, s.owner fd = some .pending ↔ s.accepting = .admitting fd
  clients : ∀ fd ticket, s.owner fd = some (.client ticket) ↔
    ∃ t, s.threads[ticket]? = some t ∧ t.fd = fd ∧ t.connection.closed = false
  quiet : ∀ t ∈ s.threads, t.done = true → t.connection.closed = true
  closes : ∀ hit ∈ s.closes, hit.2 = some hit.1

theorem Descriptors.moves (descriptors : Descriptors s) (next : Accepting)
    (here : ∀ fd, s.accepting ≠ .admitting fd) (there : ∀ fd, next ≠ .admitting fd) :
    Descriptors { s with accepting := next } := by
  refine ⟨descriptors.listener, descriptors.numbered, fun fd => ?_, descriptors.clients, descriptors.quiet,
    descriptors.closes⟩
  rw [show ({ s with accepting := next } : Server).owner fd = s.owner fd from rfl, descriptors.pending]
  exact iff_of_false (here fd) (there fd)

section Own

variable (fd f : Nat) {o : Owner} {owner : Option Owner}

theorem own_other (apart : s.owner fd ≠ some o) (other : owner ≠ some o) :
    (s.own fd owner).owner f = some o ↔ s.owner f = some o := by
  change (if f = fd then owner else s.owner f) = some o ↔ _
  by_cases here : f = fd
  · subst here
    simp [apart, other]
  · rw [if_neg here]

theorem own_gained : (s.own fd (some o)).owner f = some o ↔ f = fd ∨ s.owner f = some o := by
  change (if f = fd then some o else s.owner f) = some o ↔ _
  by_cases here : f = fd <;> simp [here]

theorem own_lost (other : owner ≠ some o) :
    (s.own fd owner).owner f = some o ↔ f ≠ fd ∧ s.owner f = some o := by
  change (if f = fd then owner else s.owner f) = some o ↔ _
  by_cases here : f = fd
  · simp [here, other]
  · simp [here]

end Own

theorem Descriptors.accepted (descriptors : Descriptors s) (here : s.accepting = .accepting) (answer : Answer) :
    Descriptors (s.accepted answer) := by
  have idle : Descriptors { s with accepting := .check } :=
    descriptors.moves .check (by simp [here]) (by simp)
  unfold Server.accepted
  split
  next l fd numbered given =>
    split
    next free =>
      refine ⟨fun f => ?_, descriptors.numbered, fun f => ?_, fun f ticket => ?_, descriptors.quiet,
        descriptors.closes⟩
      · exact (own_other fd f (by simp [free.2]) (by simp)).trans (descriptors.listener f)
      · refine (own_gained fd f).trans ?_
        rw [descriptors.pending, here]
        simp [eq_comm]
      · exact (own_other fd f (by simp [free.2]) (by simp)).trans (descriptors.clients f ticket)
    next => exact idle
  next => exact idle

theorem Descriptors.admitted (descriptors : Descriptors s) {fd : Nat} (here : s.accepting = .admitting fd)
    (answer : Answer) : Descriptors (s.acceptClient fd answer) := by
  have mine : s.owner fd = some .pending := (descriptors.pending fd).mpr here
  have only (f : Nat) : s.owner f = some .pending ↔ f = fd := by
    rw [descriptors.pending, here, Accepting.admitting.injEq, eq_comm]
  unfold Server.acceptClient
  split
  next =>
    refine ⟨fun f => ?_, descriptors.numbered, fun f => ?_, fun f ticket => ?_, descriptors.quiet,
      fun hit member => ?_⟩
    · exact (own_other fd f (by simp [mine]) (by simp)).trans (descriptors.listener f)
    · refine (own_lost fd f (by simp)).trans ?_
      rw [only]
      simp
    · exact (own_other fd f (by simp [mine]) (by simp)).trans (descriptors.clients f ticket)
    · rcases List.mem_append.mp member with earlier | last
      · exact descriptors.closes hit earlier
      · rw [List.mem_singleton.mp last]
        exact mine
  next =>
    refine ⟨fun f => ?_, descriptors.numbered, fun f => ?_, fun f ticket => ?_, fun t member finished => ?_,
      descriptors.closes⟩
    · exact (own_other fd f (by simp [mine]) (by simp)).trans (descriptors.listener f)
    · refine (own_lost fd f (by simp)).trans ?_
      rw [only]
      simp
    · -- The new thread has the next ticket; every earlier one keeps its own.
      by_cases new : ticket = s.threads.length
      · subst new
        refine (own_gained fd f).trans ?_
        rw [descriptors.clients, List.getElem?_eq_none (Nat.le_refl _), List.getElem?_concat_length]
        constructor
        · rintro (rfl | ⟨t, absent, -⟩)
          · exact ⟨_, rfl, rfl, rfl⟩
          · cases absent
        · rintro ⟨t, new, number, -⟩
          rw [← Option.some.inj new] at number
          exact .inl number.symm
      · refine (own_other fd f (by simp [mine]) (by simpa using Ne.symm new)).trans ?_
        rw [descriptors.clients]
        by_cases old : ticket < s.threads.length
        · rw [List.getElem?_append_left old]
        · rw [List.getElem?_eq_none (Nat.le_of_not_lt old), List.getElem?_eq_none (by simp; omega)]
    · rcases List.mem_append.mp member with earlier | last
      · exact descriptors.quiet t earlier finished
      · rw [List.mem_singleton.mp last] at finished
        cases finished

theorem acceptTurn_descriptors (descriptors : Descriptors s) {answer : Answer}
    (taken : s.acceptTurn answer = some s') : Descriptors s' := by
  unfold Server.acceptTurn at taken
  cases pc : s.accepting with
  | notStarted | exited =>
    rw [pc] at taken
    cases taken
  | check =>
    rw [pc] at taken
    cases taken
    exact descriptors.moves _ (by simp [pc]) fun fd => by cases s.stopRequested <;> simp
  | polling =>
    rw [pc] at taken
    cases taken
    exact descriptors.moves _ (by simp [pc]) fun fd => by cases answer.ready <;> simp
  | reaping next =>
    rw [pc] at taken
    simp only at taken
    split at taken
    · cases taken
      exact descriptors.moves _ (by simp [pc]) (by simp)
    · split at taken
      · cases taken
        exact ⟨descriptors.listener, descriptors.numbered, descriptors.pending, descriptors.clients,
          descriptors.quiet, descriptors.closes⟩
      · cases taken
        exact descriptors.moves _ (by simp [pc]) (by simp)
  | accepting =>
    rw [pc] at taken
    cases taken
    exact descriptors.accepted pc answer
  | admitting fd =>
    rw [pc] at taken
    cases taken
    exact descriptors.admitted pc answer

theorem Descriptors.advances (descriptors : Descriptors s) (next : Stopping)
    (listens : next.listens = s.stopping.listens) (numbered : next.numbered = s.stopping.numbered) :
    Descriptors { s with stopping := next } :=
  ⟨fun fd => by rw [show ({ s with stopping := next } : Server).stopping = next from rfl, listens]
                exact descriptors.listener fd,
    fun cleared => descriptors.numbered (numbered ▸ cleared), descriptors.pending, descriptors.clients,
    descriptors.quiet, descriptors.closes⟩

theorem stopperTurn_descriptors (descriptors : Descriptors s) (taken : s.stopperTurn = some s') :
    Descriptors s' := by
  unfold Server.stopperTurn at taken
  cases pc : s.stopping with
  | idle | returned =>
    rw [pc] at taken
    cases taken
  | closing =>
    have listener := descriptors.listener
    rw [pc] at taken listener
    simp only at taken
    split at taken
    next l number =>
      cases taken
      have mine : s.owner l = some .listener := (listener l).mpr ⟨number, rfl⟩
      refine ⟨fun f => ?_, fun cleared => (by cases cleared), fun f => ?_, fun f ticket => ?_, descriptors.quiet,
        fun hit member => ?_⟩
      · refine (own_lost l f (by simp)).trans ?_
        rw [listener, number]
        simp [Stopping.listens, eq_comm]
      · exact (own_other l f (by simp [mine]) (by simp)).trans (descriptors.pending f)
      · exact (own_other l f (by simp [mine]) (by simp)).trans (descriptors.clients f ticket)
      · rcases List.mem_append.mp member with earlier | last
        · exact descriptors.closes hit earlier
        · rw [List.mem_singleton.mp last]
          exact mine
    next absent =>
      cases taken
      refine ⟨fun f => ?_, fun _ => absent, descriptors.pending, descriptors.clients, descriptors.quiet,
        descriptors.closes⟩
      refine (listener f).trans ?_
      rw [show ({ s with stopping := .joiningAccept } : Server).listenFd = s.listenFd from rfl, absent]
      simp
  | clearing =>
    have listener := descriptors.listener
    rw [pc] at taken listener
    cases taken
    refine ⟨fun f => ?_, fun _ => rfl, descriptors.pending, descriptors.clients, descriptors.quiet,
      descriptors.closes⟩
    refine (listener f).trans ?_
    simp [Stopping.listens]
  | joiningAccept =>
    rw [pc] at taken
    simp only at taken
    split at taken
    · cases taken
      exact descriptors.advances .swapping (by rw [pc]; rfl) (by rw [pc]; rfl)
    · cases taken
      exact descriptors.advances .swapping (by rw [pc]; rfl) (by rw [pc]; rfl)
    · cases taken
  | swapping =>
    rw [pc] at taken
    simp only at taken
    split at taken
    · cases taken
    · cases taken
      have next := descriptors.advances (.joining s.connThreads) (by rw [pc]; rfl) (by rw [pc]; rfl)
      exact ⟨next.listener, next.numbered, next.pending, next.clients, next.quiet, next.closes⟩
  | joining threads =>
    rw [pc] at taken
    cases threads with
    | nil =>
      cases taken
      exact descriptors.advances .returned (by rw [pc]; rfl) (by rw [pc]; rfl)
    | cons ticket rest =>
      simp only at taken
      split at taken
      · cases taken
        have next := descriptors.advances (.joining rest) (by rw [pc]; rfl) (by rw [pc]; rfl)
        exact ⟨next.listener, next.numbered, next.pending, next.clients, next.quiet, next.closes⟩
      · cases taken

theorem served_clients (clients : ∀ fd ticket, s.owner fd = some (.client ticket) ↔
      ∃ t, s.threads[ticket]? = some t ∧ t.fd = fd ∧ t.connection.closed = false)
    {ticket : Nat} {t : Thread} (t' : Thread) (here : s.threads[ticket]? = some t) {owner : Nat → Option Owner}
    (others : ∀ fd i, i ≠ ticket → (owner fd = some (.client i) ↔ s.owner fd = some (.client i)))
    (mine : ∀ fd, owner fd = some (.client ticket) ↔ t'.fd = fd ∧ t'.connection.closed = false) (fd i : Nat) :
    owner fd = some (.client i) ↔
      ∃ t, (s.threads.set ticket t')[i]? = some t ∧ t.fd = fd ∧ t.connection.closed = false := by
  have inside := (List.getElem?_eq_some_iff.mp here).1
  by_cases same : i = ticket
  · rw [same, mine, List.getElem?_set_self inside]
    constructor
    · exact fun held => ⟨t', rfl, held⟩
    · rintro ⟨u, new, held⟩
      rwa [Option.some.inj new]
  · rw [others fd i same, clients, List.getElem?_set_ne (Ne.symm same)]

theorem connectionTurn_descriptors (descriptors : Descriptors s) {ticket : Nat} {store : QueryServer}
    {received : Received} {now : Nat} {sent : Option Sent}
    (taken : s.connectionTurn ticket store received now sent = some s') : Descriptors s' := by
  unfold Server.connectionTurn at taken
  cases here : s.threads[ticket]? with
  | none =>
    rw [here] at taken
    cases taken
  | some t =>
    have mine (fd : Nat) : s.owner fd = some (.client ticket) ↔ t.fd = fd ∧ t.connection.closed = false := by
      rw [descriptors.clients, here]
      constructor
      · rintro ⟨u, same, held⟩
        rwa [Option.some.inj same]
      · exact fun held => ⟨t, rfl, held⟩
    have quiet (t' : Thread) (still : t'.done = true → t'.connection.closed = true) :
        ∀ u ∈ s.threads.set ticket t', u.done = true → u.connection.closed = true := by
      intro u member
      rcases List.mem_or_eq_of_mem_set member with earlier | rfl
      · exact descriptors.quiet u earlier
      · exact still
    rw [here] at taken
    simp only at taken
    split at taken
    · cases taken
    next running =>
      split at taken
      next closed =>
        cases taken
        refine ⟨descriptors.listener, descriptors.numbered, descriptors.pending, ?_, quiet _ fun _ => closed,
          descriptors.closes⟩
        exact served_clients descriptors.clients _ here (fun _ _ _ => Iff.rfl) mine
      next alive =>
        have alive : t.connection.closed = false := by simpa using alive
        have held : s.owner t.fd = some (.client ticket) := (mine t.fd).mpr ⟨rfl, alive⟩
        split at taken
        next closed =>
          cases taken
          refine ⟨fun f => ?_, descriptors.numbered, fun f => ?_, ?_, quiet _ fun _ => closed, fun hit member => ?_⟩
          · exact (own_other t.fd f (by simp [held]) (by simp)).trans (descriptors.listener f)
          · exact (own_other t.fd f (by simp [held]) (by simp)).trans (descriptors.pending f)
          · refine served_clients descriptors.clients _ here (fun f i other => ?_) fun f => ?_
            · exact own_other t.fd f (by simpa [held] using Ne.symm other) (by simp)
            · refine (own_lost t.fd f (by simp)).trans ?_
              rw [mine, closed]
              simp only [Bool.true_eq_false, and_false, iff_false]
              exact fun lost => lost.1 lost.2.1.symm
          · rcases List.mem_append.mp member with earlier | last
            · exact descriptors.closes hit earlier
            · rw [List.mem_singleton.mp last]
              exact held
        next open_still =>
          cases taken
          refine ⟨descriptors.listener, descriptors.numbered, descriptors.pending, ?_,
            quiet _ fun finished => absurd finished running, descriptors.closes⟩
          refine served_clients descriptors.clients _ here (fun _ _ _ => Iff.rfl) fun f => (mine f).trans ?_
          rw [alive, eq_false_of_ne_true open_still]

theorem step_descriptors (control : Control s) (descriptors : Descriptors s) {turn : Turn}
    (taken : step s turn = some s') : Descriptors s' := by
  cases turn with
  | accept answer => exact acceptTurn_descriptors descriptors taken
  | stopper => exact stopperTurn_descriptors descriptors taken
  | connection ticket store received now sent => exact connectionTurn_descriptors descriptors taken
  | start =>
    simp only [step] at taken
    split at taken
    next fresh =>
      cases taken
      exact descriptors.moves .check (by simp [fresh.1]) (by simp)
    next => cases taken
  | stop =>
    simp only [step] at taken
    split at taken
    · cases taken
      exact descriptors
    next clear =>
      cases taken
      have idle : s.stopping = .idle := by
        by_contra busy
        exact clear (control.flag.mpr busy)
      have next := descriptors.advances .closing (by rw [idle]; rfl) (by rw [idle]; rfl)
      exact ⟨next.listener, next.numbered, next.pending, next.clients, next.quiet, next.closes⟩
  | opens fd | closes fd =>
    simp only [step] at taken
    split at taken
    next foreign =>
      cases taken
      exact ⟨fun f => (own_other fd f (by simp [foreign]) (by simp)).trans (descriptors.listener f),
        descriptors.numbered, fun f => (own_other fd f (by simp [foreign]) (by simp)).trans (descriptors.pending f),
        fun f ticket => (own_other fd f (by simp [foreign]) (by simp)).trans (descriptors.clients f ticket),
        descriptors.quiet, descriptors.closes⟩
    next => cases taken

theorem constructed_control {fd : Nat} (constructed : Constructed s fd) : Control s := by
  obtain ⟨owner, rfl⟩ := constructed.fresh
  exact ⟨by simp, fun drains => (by cases drains), fun swapped => (by cases swapped), Nat.zero_le _, .refl _,
    fun ticket member => (by cases member)⟩

theorem constructed_descriptors {fd : Nat} (constructed : Constructed s fd) : Descriptors s := by
  obtain ⟨owner, rfl⟩ := constructed.fresh
  have mine : owner fd = some .listener := constructed.listens
  have foreign (f : Nat) {o : Owner} (other : o ≠ .listener) (ours : o ≠ .elsewhere) : owner f ≠ some o := by
    by_cases here : f = fd
    · rw [here, mine]
      simpa using Ne.symm other
    · rcases constructed.others f here with free | elsewhere
      · rw [show owner f = none from free]
        simp
      · rw [show owner f = some .elsewhere from elsewhere]
        simpa using Ne.symm ours
  refine ⟨fun f => ⟨fun held => ?_, ?_⟩, fun cleared => (by cases cleared), fun f => ?_, fun f ticket => ?_,
    fun t member => (by cases member), fun hit member => (by cases member)⟩
  · by_cases here : f = fd
    · rw [here]
      exact ⟨rfl, rfl⟩
    · rcases constructed.others f here with free | elsewhere
      · cases held.symm.trans free
      · cases held.symm.trans elsewhere
  · rintro ⟨number, -⟩
    rw [← Option.some.inj number]
    exact mine
  · exact iff_of_false (foreign f (by simp) (by simp)) (by simp)
  · refine iff_of_false (foreign f (by simp) (by simp)) ?_
    rintro ⟨t, absent, -⟩
    cases absent

theorem reachable_control {s₀ : Server} {fd : Nat} (constructed : Constructed s₀ fd)
    (reached : Transition.Reachable step s₀ s) : Control s :=
  reached.invariant (constructed_control constructed) fun _ _ _ _ control taken => step_control control taken

theorem reachable_descriptors {s₀ : Server} {fd : Nat} (constructed : Constructed s₀ fd)
    (reached : Transition.Reachable step s₀ s) : Descriptors s :=
  reached.invariant (constructed_descriptors constructed) fun _ _ _ before descriptors taken =>
    step_descriptors (reachable_control constructed before) descriptors taken

structure Stopped (s : Server) : Prop where
  returned : s.stopping = .returned
  requested : s.stopRequested = true
  accept : s.accepting.gone = true
  joined : s.joined.Perm (List.range s.threads.length)
  finished : ∀ ticket < s.threads.length, s.done ticket = true
  number : s.listenFd = none
  sockets : ∀ fd, s.owner fd = none ∨ s.owner fd = some .elsewhere

theorem returned_stopped (control : Control s) (descriptors : Descriptors s) (returned : s.stopping = .returned) :
    Stopped s := by
  have accept : s.accepting.gone = true := control.quiet (by rw [returned]; rfl)
  have tracked := control.tracked
  rw [returned, control.emptied (by rw [returned]; rfl)] at tracked
  have joined : s.joined.Perm (List.range s.threads.length) := by simpa [Stopping.held] using tracked
  have finished (ticket : Nat) (inside : ticket < s.threads.length) : s.done ticket = true :=
    control.finished ticket (joined.mem_iff.mpr (List.mem_range.mpr inside))
  refine ⟨returned, control.flag.mpr (by simp [returned]), accept, joined, finished,
    descriptors.numbered (by rw [returned]; rfl), fun fd => ?_⟩
  cases owned : s.owner fd with
  | none => exact .inl rfl
  | some o =>
    cases o with
    | elsewhere => exact .inr rfl
    | listener =>
      have listens := ((descriptors.listener fd).mp owned).2
      rw [returned] at listens
      cases listens
    | pending =>
      rw [(descriptors.pending fd).mp owned] at accept
      cases accept
    | client ticket =>
      -- Its thread has set its flag, which it does after it has closed the connection.
      obtain ⟨t, here, -, alive⟩ := (descriptors.clients fd ticket).mp owned
      obtain ⟨inside, same⟩ := List.getElem?_eq_some_iff.mp here
      have done := finished ticket inside
      rw [Server.done, here] at done
      have closed := descriptors.quiet t (List.mem_of_getElem? here) done
      rw [alive] at closed
      cases closed

theorem stopped_step (stopped : Stopped s) {turn : Turn} (taken : step s turn = some s') :
    s' = { s with owner := s'.owner } := by
  cases turn with
  | start =>
    rw [step, if_neg (by simp [stopped.requested])] at taken
    cases taken
  | stop =>
    rw [step, if_pos stopped.requested] at taken
    cases taken
    rfl
  | accept answer =>
    have accept := stopped.accept
    rw [step, Server.acceptTurn] at taken
    cases pc : s.accepting with
    | notStarted | exited =>
      rw [pc] at taken
      cases taken
    | _ =>
      rw [pc] at accept
      cases accept
  | stopper =>
    rw [step, Server.stopperTurn, stopped.returned] at taken
    cases taken
  | connection ticket store received now sent =>
    rw [step, Server.connectionTurn] at taken
    cases here : s.threads[ticket]? with
    | none =>
      rw [here] at taken
      cases taken
    | some t =>
      have done := stopped.finished ticket (List.getElem?_eq_some_iff.mp here).1
      rw [Server.done, here] at done
      rw [here] at taken
      simp only at taken
      rw [if_pos (show t.done = true from done)] at taken
      cases taken
  | opens fd | closes fd =>
    simp only [step] at taken
    split at taken
    · cases taken
      rfl
    · cases taken

theorem stopped_stays (stopped : Stopped s) (descriptors : Descriptors s) (control : Control s)
    (reached : Transition.Reachable step s s') : s' = { s with owner := s'.owner } ∧ Stopped s' := by
  have stays : Control s' ∧ Descriptors s' ∧ s' = { s with owner := s'.owner } := by
    induction reached with
    | start => exact ⟨control, descriptors, rfl⟩
    | move turn _ taken ih =>
      obtain ⟨control, descriptors, same⟩ := ih
      have before := returned_stopped control descriptors (by rw [same]; exact stopped.returned)
      have next := stopped_step before taken
      rw [same] at next
      exact ⟨step_control control taken, step_descriptors control descriptors taken, next⟩
  obtain ⟨control', descriptors', same⟩ := stays
  exact ⟨same, returned_stopped control' descriptors' (by rw [same]; exact stopped.returned)⟩

/-- Whatever its threads, its callers and the rest of the process do in whatever
order, a server has at most kMaxConnections threads in its vector, has each of its
threads in one place and joins it once it is done, and closes only what it owns.
Once stop has returned all of them are joined, none of its descriptors is open
and nothing of it moves again. -/
theorem server_runs_are_safe {s₀ s : Server} {fd : Nat} (constructed : Constructed s₀ fd)
    (reached : Transition.Reachable step s₀ s) :
    s.connThreads.length ≤ kMaxConnections ∧
      (s.joined ++ s.connThreads ++ s.stopping.held).Perm (List.range s.threads.length) ∧
      (∀ ticket ∈ s.joined, s.done ticket = true) ∧ (∀ hit ∈ s.closes, hit.2 = some hit.1) ∧
      (∀ f ticket, s.owner f = some (.client ticket) ↔
        ∃ t, s.threads[ticket]? = some t ∧ t.fd = f ∧ t.connection.closed = false) ∧
      (s.stopping = .returned → Stopped s ∧ ∀ s', Transition.Reachable step s s' →
        s' = { s with owner := s'.owner } ∧ Stopped s') := by
  have control := reachable_control constructed reached
  have descriptors := reachable_descriptors constructed reached
  refine ⟨control.capped, control.tracked, control.finished, descriptors.closes, descriptors.clients,
    fun returned => ?_⟩
  have stopped := returned_stopped control descriptors returned
  exact ⟨stopped, fun s' later => stopped_stays stopped descriptors control later⟩

theorem server_runs_are_safe_one_client :
    let store : QueryServer := ⟨.dataVersionRefs, .versionRefs, []⟩
    let constructed : Server := { listenFd := some 3, owner := fun f => if f = 3 then some .listener else none }
    let schedule : List Turn :=
      [.start, .accept {}, .accept {}, .accept { ready := true }, .accept { fd := some 4 }, .accept {}, .stop,
        .stopper, .opens 3, .stopper, .accept {}, .stopper, .stopper, .connection 0 store .again 1 none,
        .connection 0 store .again 1 none, .stopper, .stopper]
    ∃ s, Transition.execute step constructed schedule = some s ∧
      s.closes = [(.listener, some .listener), (.client 0, some (.client 0))] ∧ Stopped s ∧
      ∀ s', Transition.Reachable step s s' → s' = { s with owner := s'.owner } ∧ Stopped s' := by
  intro store constructed schedule
  obtain ⟨s, runs, closes, returned⟩ : ∃ s, Transition.execute step constructed schedule = some s ∧
      s.closes = [(.listener, some .listener), (.client 0, some (.client 0))] ∧ s.stopping = .returned :=
    ⟨_, rfl, rfl, rfl⟩
  have listening : Constructed constructed 3 := ⟨⟨_, rfl⟩, rfl, fun f other => .inl (if_neg other)⟩
  have safe := server_runs_are_safe listening (Transition.Reachable.start.execute runs)
  exact ⟨s, runs, closes, safe.2.2.2.2.2 returned⟩

end Lifecycle

end ItchLob.Net
