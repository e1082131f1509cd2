import ItchLob.Net.ServerLifecycle
import Mathlib.Data.Prod.Lex

set_option autoImplicit false

namespace ItchLob.Net

namespace Lifecycle

open Fairness QueryWire

inductive Party where
  | stopper
  | acceptor
  | connection (ticket : Nat)
  deriving DecidableEq, Repr

-- A send that blocks has not come back, and one that is to be retried is called again.
def comesBack : Option Sent → Bool
  | none | some .again => false
  | some _ => true

-- Whom a turn brings further. A connection that is sending gets further when its send comes back.
def Turn.party : Turn → Option Party
  | .stopper => some .stopper
  | .accept _ => some .acceptor
  | .connection ticket _ _ _ sent => if comesBack sent then some (.connection ticket) else none
  | _ => none

def Stopping.stage : Stopping → Nat
  | .idle => 6
  | .closing => 5
  | .clearing => 4
  | .joiningAccept => 3
  | .swapping => 2
  | .joining _ => 1
  | .returned => 0

-- From a poll the accept thread comes back to the flag within four turns.
def Server.acceptLeft (s : Server) : Nat :=
  match s.accepting with
  | .notStarted | .exited => 0
  | .check => 1
  | .admitting _ => 2
  | .accepting => 3
  | .polling => 4
  | .reaping next => 5 + (s.connThreads.length - next)

-- From the flag test a thread is done in two turns. Before that it may have answers to send, one
-- for each line of its buffer at most; a recv that has begun may still bring more of them.
def talkLeft (t : Talk) : ℕ ×ₗ ℕ ×ₗ ℕ :=
  match t.doing with
  | .closed => toLex (1, toLex (0, 0))
  | .testing => toLex (2, toLex (0, 0))
  | .sending left last => toLex (3, toLex (if last then 0 else t.buf.length + 1, left.length))
  | .receiving => toLex (4, toLex (0, 0))

def Thread.left (t : Thread) : ℕ ×ₗ ℕ ×ₗ ℕ := if t.done then toLex (0, toLex (0, 0)) else talkLeft t.connection

def Server.threadLeft (s : Server) (ticket : Nat) : ℕ ×ₗ ℕ ×ₗ ℕ :=
  (s.threads[ticket]?.map Thread.left).getD (toLex (0, toLex (0, 0)))

def Server.within (s : Server) : ℕ ×ₗ ℕ ×ₗ ℕ ×ₗ ℕ :=
  match s.stopping with
  | .joiningAccept => toLex (s.acceptLeft, toLex (0, toLex (0, 0)))
  | .joining threads =>
    toLex (threads.length, (threads.head?.map s.threadLeft).getD (toLex (0, toLex (0, 0))))
  | _ => toLex (0, toLex (0, toLex (0, 0)))

def Server.rank (s : Server) : ℕ ×ₗ ℕ ×ₗ ℕ ×ₗ ℕ ×ₗ ℕ := toLex (s.stopping.stage, s.within)

def Server.needed (s : Server) : Party :=
  match s.stopping with
  | .joiningAccept => if s.accepting.gone then .stopper else .acceptor
  | .joining (ticket :: _) => if s.done ticket then .stopper else .connection ticket
  | _ => .stopper

variable {s s' : Server}

theorem lex_first {W : Type} [LT W] {a b : Nat} {v w : W} (lower : a < b) : toLex (a, v) < toLex (b, w) :=
  Prod.Lex.toLex_lt_toLex.mpr (.inl lower)

theorem lex_second {W : Type} [LT W] {a : Nat} {v w : W} (lower : v < w) : toLex (a, v) < toLex (a, w) :=
  Prod.Lex.toLex_lt_toLex.mpr (.inr ⟨rfl, lower⟩)

theorem rank_stage (before after : Stopping) (here : s.stopping = before) (there : s'.stopping = after)
    (lower : after.stage < before.stage) : s'.rank < s.rank := by
  rw [← here, ← there] at lower
  exact Prod.Lex.toLex_lt_toLex.mpr (.inl lower)

theorem rank_within (same : s'.stopping = s.stopping) (lower : s'.within < s.within) : s'.rank < s.rank :=
  Prod.Lex.toLex_lt_toLex.mpr (.inr ⟨congrArg Stopping.stage same, lower⟩)

theorem acceptTurn_left (requested : s.stopRequested = true) {answer : Answer}
    (taken : s.acceptTurn answer = some s') :
    s'.stopping = s.stopping ∧ s.accepting.gone = false ∧ s'.acceptLeft < s.acceptLeft := by
  unfold Server.acceptTurn at taken
  cases pc : s.accepting with
  | notStarted | exited =>
    rw [pc] at taken
    cases taken
  | check =>
    rw [pc] at taken
    cases taken
    refine ⟨rfl, rfl, ?_⟩
    simp [Server.acceptLeft, pc, requested]
  | polling =>
    rw [pc] at taken
    cases taken
    refine ⟨rfl, rfl, ?_⟩
    cases answer.ready <;> simp [Server.acceptLeft, pc]
  | reaping next =>
    rw [pc] at taken
    simp only at taken
    split at taken
    next behind =>
      cases taken
      refine ⟨rfl, rfl, ?_⟩
      simp only [Server.acceptLeft, pc]
      omega
    next ticket here =>
      have inside := (List.getElem?_eq_some_iff.mp here).1
      split at taken
      · cases taken
        refine ⟨rfl, rfl, ?_⟩
        simp only [Server.acceptLeft, Server.join, pc, List.length_eraseIdx_of_lt inside]
        omega
      · cases taken
        refine ⟨rfl, rfl, ?_⟩
        simp only [Server.acceptLeft, pc]
        omega
  | accepting =>
    rw [pc] at taken
    cases taken
    unfold Server.accepted
    split
    · split
      · exact ⟨rfl, rfl, by simp [Server.acceptLeft, pc]⟩
      · exact ⟨rfl, rfl, by simp [Server.acceptLeft, pc]⟩
    · exact ⟨rfl, rfl, by simp [Server.acceptLeft, pc]⟩
  | admitting fd =>
    rw [pc] at taken
    cases taken
    unfold Server.acceptClient
    split
    · exact ⟨rfl, rfl, by simp [Server.acceptLeft, pc]⟩
    · exact ⟨rfl, rfl, by simp [Server.acceptLeft, pc]⟩

theorem stopperTurn_rank (taken : s.stopperTurn = some s') : s'.rank < s.rank := by
  unfold Server.stopperTurn at taken
  cases pc : s.stopping with
  | idle | returned =>
    rw [pc] at taken
    cases taken
  | closing =>
    rw [pc] at taken
    simp only at taken
    split at taken
    · cases taken
      exact rank_stage .closing .clearing pc rfl (by decide)
    · cases taken
      exact rank_stage .closing .joiningAccept pc rfl (by decide)
  | clearing =>
    rw [pc] at taken
    cases taken
    exact rank_stage .clearing .joiningAccept pc rfl (by decide)
  | joiningAccept =>
    rw [pc] at taken
    simp only at taken
    split at taken
    · cases taken
      exact rank_stage .joiningAccept .swapping pc rfl (by decide)
    · cases taken
      exact rank_stage .joiningAccept .swapping pc rfl (by decide)
    · cases taken
  | swapping =>
    rw [pc] at taken
    simp only at taken
    split at taken
    · cases taken
    · cases taken
      exact rank_stage .swapping (.joining s.connThreads) pc rfl (Nat.lt_succ_self 1)
  | joining threads =>
    rw [pc] at taken
    cases threads with
    | nil =>
      cases taken
      exact rank_stage (.joining []) .returned pc rfl (by decide)
    | cons ticket rest =>
      simp only at taken
      split at taken
      · cases taken
        refine Prod.Lex.toLex_lt_toLex.mpr (.inr ⟨by rw [pc]; rfl, ?_⟩)
        rw [Server.within, Server.within, pc]
        exact lex_first (Nat.lt_succ_self rest.length)
      · cases taken

theorem goesOn_doing (q : QueryServer) (t : Talk) :
    (q.goesOn t).doing = .testing ∨ (∃ left, (q.goesOn t).doing = .sending left true) ∨
      ∃ left, (q.goesOn t).doing = .sending left false ∧ (q.goesOn t).buf.length < t.buf.length := by
  have shorter (fuel : Nat) (buf : Text) {rest response : Text}
      (found : q.nextReply fuel buf = (rest, some response)) : rest.length < buf.length := by
    induction fuel generalizing buf with
    | zero => cases found
    | succ fuel ih =>
      rw [QueryServer.nextReply] at found
      split at found
      next => cases found
      next line behind taken =>
        have less := takeLine_shorter taken
        split at found
        next => exact (ih behind found).trans less
        next =>
          cases found
          exact less
  unfold QueryServer.goesOn
  cases found : q.nextReply t.buf.length t.buf with
  | mk rest reply =>
    cases reply with
    | some response => exact .inr (.inr ⟨response, rfl, shorter _ _ found⟩)
    | none =>
      by_cases long : kMaxLineLen < rest.length
      · exact .inr (.inl ⟨QueryServer.tooLong, by simp [long]⟩)
      · exact .inl (by simp [long])

theorem goesOn_left (q : QueryServer) (t : Talk) {left : Text} :
    talkLeft (q.goesOn t) < toLex (3, toLex (t.buf.length + 1, left.length)) := by
  unfold talkLeft
  rcases goesOn_doing q t with testing | ⟨left, sending⟩ | ⟨left, sending, shorter⟩
  · rw [testing]
    exact lex_first (Nat.lt_succ_self 2)
  · rw [sending]
    exact lex_second (lex_first (Nat.succ_pos _))
  · rw [sending]
    exact lex_second (lex_first (Nat.succ_lt_succ shorter))

theorem sends_left {q : QueryServer} {t : Talk} {left : Text} {last : Bool} (here : t.doing = .sending left last)
    (sent : Sent) (back : sent ≠ .again) : talkLeft (q.sends t left last sent) < talkLeft t := by
  have before : talkLeft t = toLex (3, toLex (if last then 0 else t.buf.length + 1, left.length)) := by
    rw [talkLeft, here]
  have closes (written : Text) : talkLeft { t with written, doing := .closed } < talkLeft t := by
    rw [before]
    exact lex_first (show 1 < 3 by omega)
  cases sent with
  | again => exact absurd rfl back
  | failed => exact closes t.written
  | took n =>
    cases n with
    | zero => exact closes t.written
    | succ n =>
      simp only [QueryServer.sends]
      by_cases more : left.drop (n + 1) ≠ []
      · rw [if_pos more, before]
        have some : 0 < left.length := by
          by_contra none
          exact more (by rw [List.length_eq_zero_iff.mp (Nat.eq_zero_of_not_pos none)]; rfl)
        refine lex_second (lex_second ?_)
        rw [List.length_drop]
        omega
      · rw [if_neg more]
        cases last with
        | true => exact closes _
        | false =>
          rw [before]
          exact goesOn_left q { t with written := t.written ++ left.take (n + 1) }

theorem turn_left (q : QueryServer) {t : Talk} (alive : t.closed = false) {e : Event}
    (requested : e.stopRequested = true) (sent : Option Sent) :
    talkLeft (q.turn t e sent) < talkLeft t ∨ q.turn t e sent = t ∧ comesBack sent = false := by
  unfold QueryServer.turn
  cases here : t.doing with
  | closed => simp [Talk.closed, here] at alive
  | testing =>
    refine .inl ?_
    simp only [talkLeft, here, requested, if_true]
    exact lex_first (by decide)
  | receiving =>
    have below (t' : Talk)
        (stage : t'.doing = .closed ∨ t'.doing = .testing ∨ ∃ left last, t'.doing = .sending left last) :
        talkLeft t' < talkLeft t := by
      rw [talkLeft, talkLeft, here]
      rcases stage with closed | testing | ⟨left, last, sending⟩
      · rw [closed]
        exact lex_first (by decide)
      · rw [testing]
        exact lex_first (by decide)
      · rw [sending]
        exact lex_first (Nat.lt_succ_self 3)
    refine .inl (below _ ?_)
    unfold QueryServer.receives
    cases e.received with
    | chunk data =>
      rcases goesOn_doing q { t with buf := t.buf ++ data.data, lastActivity := e.now } with testing | long | line
      · exact .inr (.inl testing)
      · exact .inr (.inr (long.imp fun left sending => ⟨true, sending⟩))
      · exact .inr (.inr (line.imp fun left sending => ⟨false, sending.1⟩))
    | closed | failed => exact .inl rfl
    | again =>
      simp only
      split
      · exact .inl rfl
      · exact .inr (.inl rfl)
  | sending left last =>
    cases sent with
    | none => exact .inr ⟨rfl, rfl⟩
    | some sent =>
      by_cases back : sent = .again
      · rw [back]
        exact .inr ⟨rfl, rfl⟩
      · exact .inl (sends_left here sent back)

theorem connectionTurn_left (requested : s.stopRequested = true) {ticket : Nat} {store : QueryServer}
    {received : Received} {now : Nat} {sent : Option Sent}
    (taken : s.connectionTurn ticket store received now sent = some s') :
    (s'.stopping = s.stopping ∧ s'.accepting = s.accepting ∧ s'.connThreads = s.connThreads) ∧
      (∀ i, i ≠ ticket → s'.threads[i]? = s.threads[i]?) ∧ s.done ticket = false ∧
      (s'.threadLeft ticket < s.threadLeft ticket ∨
        s'.threads[ticket]? = s.threads[ticket]? ∧ comesBack sent = false) := by
  unfold Server.connectionTurn at taken
  cases here : s.threads[ticket]? with
  | none =>
    rw [here] at taken
    cases taken
  | some t =>
    have inside := (List.getElem?_eq_some_iff.mp here).1
    have before : s.threadLeft ticket = t.left := by rw [Server.threadLeft, here, Option.map_some, Option.getD_some]
    have after (t' : Thread) :
        ((s.threads.set ticket t')[ticket]?.map Thread.left).getD (toLex (0, toLex (0, 0))) = t'.left := by
      rw [List.getElem?_set_self inside, Option.map_some, Option.getD_some]
    have others (t' : Thread) (i : Nat) (other : i ≠ ticket) : (s.threads.set ticket t')[i]? = s.threads[i]? :=
      List.getElem?_set_ne (Ne.symm other)
    rw [here] at taken
    simp only at taken
    split at taken
    · cases taken
    next running =>
      have done : s.done ticket = false := by
        rw [Server.done, here]
        exact eq_false_of_ne_true running
      split at taken
      next closed =>
        cases taken
        refine ⟨⟨rfl, rfl, rfl⟩, others _, done, .inl ?_⟩
        rw [before]
        refine (after _).trans_lt ?_
        rw [Thread.left, Thread.left, if_pos rfl, if_neg running, talkLeft, of_decide_eq_true closed]
        exact lex_first (by decide)
      next alive =>
        let e : Event := { stopRequested := s.stopRequested, received, now }
        let served : Thread := { t with connection := store.turn t.connection e sent }
        obtain ⟨same, threads⟩ : (s'.stopping = s.stopping ∧ s'.accepting = s.accepting ∧
            s'.connThreads = s.connThreads) ∧ s'.threads = s.threads.set ticket served := by
          split at taken <;> cases taken <;> exact ⟨⟨rfl, rfl, rfl⟩, rfl⟩
        have left : served.left = talkLeft served.connection := if_neg running
        have own : t.left = talkLeft t.connection := if_neg running
        refine ⟨same, fun i other => by rw [threads]; exact others _ i other, done, ?_⟩
        rcases turn_left store (eq_false_of_ne_true alive) (e := e) requested sent with lower | ⟨still, blocked⟩
        · left
          rw [before, own, Server.threadLeft, threads, after, left]
          exact lower
        · right
          refine ⟨?_, blocked⟩
          rw [threads, List.getElem?_set_self inside, show served = t from congrArg (Thread.mk t.fd · t.done) still]

theorem rank_same (stopping : s'.stopping = s.stopping)
    (accept : s.stopping = .joiningAccept → s'.accepting = s.accepting ∧ s'.connThreads = s.connThreads)
    (first : ∀ ticket rest, s.stopping = .joining (ticket :: rest) → s'.threads[ticket]? = s.threads[ticket]?) :
    s'.rank = s.rank ∧ s'.needed = s.needed := by
  suffices same : s'.within = s.within ∧ s'.needed = s.needed by
    refine ⟨?_, same.2⟩
    rw [Server.rank, Server.rank, stopping, same.1]
  cases pc : s.stopping with
  | joiningAccept =>
    obtain ⟨accepting, connThreads⟩ := accept pc
    simp only [Server.within, Server.needed, Server.acceptLeft, stopping, pc, accepting, connThreads, and_self]
  | joining threads =>
    cases threads with
    | nil => simp only [Server.within, Server.needed, stopping, pc, List.head?_nil, Option.map_none, and_self]
    | cons ticket rest =>
      have left : s'.threadLeft ticket = s.threadLeft ticket := by
        rw [Server.threadLeft, Server.threadLeft, first ticket rest pc]
      have done : s'.done ticket = s.done ticket := by rw [Server.done, Server.done, first ticket rest pc]
      constructor
      · simp only [Server.within, stopping, pc, List.head?_cons, Option.map_some, left]
      · rw [Server.needed, Server.needed, stopping, pc]
        simp only
        rw [done]
  | _ => simp only [Server.within, Server.needed, stopping, pc, and_self]

theorem step_rank (control : Control s) (requested : s.stopRequested = true) {turn : Turn}
    (taken : step s turn = some s') :
    s'.rank < s.rank ∨ (s'.rank = s.rank ∧ s'.needed = s.needed ∧ turn.party ≠ some s.needed) := by
  cases turn with
  | stopper => exact .inl (stopperTurn_rank taken)
  | accept answer =>
    obtain ⟨same, busy, closer⟩ := acceptTurn_left requested taken
    by_cases joins : s.stopping = .joiningAccept
    · refine .inl (rank_within same ?_)
      simp only [Server.within, same, joins]
      exact lex_first closer
    · right
      have early : s.stopping.drains = false := by
        by_contra drains
        rw [control.quiet (by simpa using drains)] at busy
        cases busy
      have unmoved : s'.rank = s.rank ∧ s'.needed = s.needed :=
        rank_same same (fun here => absurd here joins) fun ticket rest here => by
          rw [here] at early
          cases early
      refine ⟨unmoved.1, unmoved.2, ?_⟩
      cases pc : s.stopping with
      | joiningAccept => exact absurd pc joins
      | idle | closing | clearing => simp [Turn.party, Server.needed, pc]
      | swapping | joining _ | returned =>
        rw [pc] at early
        cases early
  | connection ticket store received now sent =>
    obtain ⟨⟨same, accepting, connThreads⟩, others, running, closer⟩ := connectionTurn_left requested taken
    by_cases head : ∃ rest, s.stopping = .joining (ticket :: rest)
    · obtain ⟨rest, joins⟩ := head
      rcases closer with lower | ⟨still, blocked⟩
      · refine .inl (rank_within same ?_)
        simp only [Server.within, same, joins, List.head?_cons, Option.map_some, Option.getD_some]
        exact lex_second lower
      · right
        have unmoved : s'.rank = s.rank ∧ s'.needed = s.needed :=
          rank_same same (fun _ => ⟨accepting, connThreads⟩) fun i later here => by
            rw [joins] at here
            cases here
            exact still
        exact ⟨unmoved.1, unmoved.2, by simp [Turn.party, blocked]⟩
    · right
      have unmoved : s'.rank = s.rank ∧ s'.needed = s.needed :=
        rank_same same (fun _ => ⟨accepting, connThreads⟩) fun i rest here => others i fun mine =>
          head ⟨rest, mine ▸ here⟩
      refine ⟨unmoved.1, unmoved.2, fun mine => ?_⟩
      have needed : s.needed = .connection ticket := by
        simp only [Turn.party] at mine
        split at mine
        · exact (Option.some.inj mine).symm
        · cases mine
      unfold Server.needed at needed
      split at needed
      · split at needed <;> cases needed
      next first rest here =>
        split at needed
        · cases needed
        · cases needed
          exact head ⟨rest, here⟩
      · cases needed
  | start =>
    rw [step, if_neg (by simp [requested])] at taken
    cases taken
  | stop =>
    rw [step, if_pos requested] at taken
    cases taken
    exact .inr ⟨rfl, rfl, by simp [Turn.party]⟩
  | opens fd | closes fd =>
    simp only [step] at taken
    split at taken
    · cases taken
      exact .inr ⟨rfl, rfl, by simp [Turn.party]⟩
    · cases taken

theorem Stopping.stage_le {stopping : Stopping} (busy : stopping ≠ .idle) : stopping.stage ≤ 5 := by
  cases stopping <;> simp [Stopping.stage] at *

theorem step_requested (control : Control s) (requested : s.stopRequested = true) {turn : Turn}
    (taken : step s turn = some s') : s'.stopRequested = true := by
  refine (step_control control taken).flag.mpr fun idle => ?_
  have before : s.stopping.stage ≤ 5 := Stopping.stage_le (control.flag.mp requested)
  have after : s'.stopping.stage ≤ s.stopping.stage := by
    have lower : s'.rank ≤ s.rank := by
      rcases step_rank control requested taken with lower | ⟨same, -⟩
      · exact lower.le
      · exact same.le
    rcases Prod.Lex.toLex_le_toLex.mp lower with stage | ⟨stage, -⟩
    · exact stage.le
    · exact stage.le
  rw [idle] at after
  exact absurd (after.trans before) (by decide)

theorem needed_enabled (control : Control s) (requested : s.stopRequested = true)
    (running : s.stopping ≠ .returned) {turn : Turn} (helps : turn.party = some s.needed) :
    ∃ s', step s turn = some s' := by
  cases turn with
  | start | stop | opens _ | closes _ => cases helps
  | stopper =>
    have needed : s.needed = .stopper := (Option.some.inj helps).symm
    rw [step, Server.stopperTurn]
    cases pc : s.stopping with
    | idle => exact absurd pc (control.flag.mp requested)
    | returned => exact absurd pc running
    | closing =>
      cases s.listenFd with
      | none => exact ⟨_, rfl⟩
      | some l => exact ⟨_, rfl⟩
    | clearing => exact ⟨_, rfl⟩
    | joiningAccept =>
      rw [Server.needed, pc] at needed
      cases at_pc : s.accepting with
      | notStarted | exited => exact ⟨_, rfl⟩
      | _ =>
        rw [at_pc] at needed
        cases needed
    | swapping =>
      have quiet := control.quiet (by rw [pc]; rfl)
      cases at_pc : s.accepting with
      | notStarted | exited => exact ⟨_, rfl⟩
      | _ =>
        rw [at_pc] at quiet
        cases quiet
    | joining threads =>
      cases threads with
      | nil => exact ⟨_, rfl⟩
      | cons ticket rest =>
        have finished : s.done ticket = true := by
          by_contra unfinished
          rw [Server.needed, pc] at needed
          simp only [if_neg unfinished] at needed
          cases needed
        exact ⟨_, if_pos finished⟩
  | accept answer =>
    have needed : s.needed = .acceptor := (Option.some.inj helps).symm
    have busy : s.accepting.gone = false := by
      unfold Server.needed at needed
      split at needed
      · split at needed
        · cases needed
        next busy => exact eq_false_of_ne_true busy
      · split at needed <;> cases needed
      · cases needed
    rw [step, Server.acceptTurn]
    cases pc : s.accepting with
    | notStarted | exited =>
      rw [pc] at busy
      cases busy
    | reaping next =>
      simp only
      split
      · exact ⟨_, rfl⟩
      · split <;> exact ⟨_, rfl⟩
    | check | polling | accepting | admitting _ => exact ⟨_, rfl⟩
  | connection ticket store received now sent =>
    have needed : s.needed = .connection ticket := by
      simp only [Turn.party] at helps
      split at helps
      · exact (Option.some.inj helps).symm
      · cases helps
    unfold Server.needed at needed
    split at needed
    · split at needed <;> cases needed
    next first rest here =>
      split at needed
      · cases needed
      next unfinished =>
        cases needed
        -- A thread in the swapped vector has been started, so it is there to take its turn.
        have inside : ticket < s.threads.length := by
          refine List.mem_range.mp (control.tracked.mem_iff.mp ?_)
          rw [here]
          simp [Stopping.held]
        obtain ⟨t, present⟩ : ∃ t, s.threads[ticket]? = some t := ⟨_, List.getElem?_eq_getElem inside⟩
        rw [Server.done, present] at unfinished
        rw [step, Server.connectionTurn, present]
        simp only
        rw [if_neg (show ¬ t.done = true from unfinished)]
        split_ifs <;> exact ⟨_, rfl⟩
    · cases needed

-- This connection's thread is inside send_all.
def Server.sends (s : Server) (ticket : Nat) : Prop :=
  ∃ t left last, s.threads[ticket]? = some t ∧ t.done = false ∧ t.connection.doing = .sending left last

theorem acceptTurn_threads {answer : Answer} (taken : s.acceptTurn answer = some s') : s.threads <+: s'.threads := by
  unfold Server.acceptTurn at taken
  cases pc : s.accepting with
  | notStarted | exited =>
    rw [pc] at taken
    cases taken
  | check | polling =>
    rw [pc] at taken
    cases taken
    exact List.prefix_rfl
  | reaping next =>
    rw [pc] at taken
    simp only at taken
    split at taken
    · cases taken
      exact List.prefix_rfl
    · split at taken <;> cases taken <;> exact List.prefix_rfl
  | accepting =>
    rw [pc] at taken
    cases taken
    unfold Server.accepted
    split
    · split <;> exact List.prefix_rfl
    · exact List.prefix_rfl
  | admitting fd =>
    rw [pc] at taken
    cases taken
    unfold Server.acceptClient
    split
    · exact List.prefix_rfl
    · exact List.prefix_append ..

theorem stopperTurn_threads (taken : s.stopperTurn = some s') : s'.threads = s.threads := by
  unfold Server.stopperTurn at taken
  cases pc : s.stopping with
  | idle | returned =>
    rw [pc] at taken
    cases taken
  | clearing =>
    rw [pc] at taken
    cases taken
    rfl
  | closing | joiningAccept | swapping =>
    rw [pc] at taken
    simp only at taken
    split at taken <;> cases taken <;> rfl
  | joining threads =>
    rw [pc] at taken
    cases threads with
    | nil =>
      cases taken
      rfl
    | cons ticket rest =>
      simp only at taken
      split at taken <;> cases taken
      rfl

theorem connectionTurn_threads {ticket : Nat} {store : QueryServer} {received : Received} {now : Nat}
    {sent : Option Sent} (taken : s.connectionTurn ticket store received now sent = some s') :
    ∃ t, s'.threads = s.threads.set ticket t := by
  unfold Server.connectionTurn at taken
  split at taken
  next => cases taken
  next t here =>
    split at taken
    next => cases taken
    next =>
      split at taken
      · cases taken
        exact ⟨_, rfl⟩
      · simp only at taken
        split at taken <;> cases taken <;> exact ⟨_, rfl⟩

theorem sends_kept {ticket : Nat} (sends : s.sends ticket) (grows : s.threads <+: s'.threads) : s'.sends ticket := by
  obtain ⟨t, left, last, here, running, doing⟩ := sends
  obtain ⟨more, grown⟩ := grows
  have inside := (List.getElem?_eq_some_iff.mp here).1
  exact ⟨t, left, last, by rw [← grown, List.getElem?_append_left inside, here], running, doing⟩

theorem step_sends {ticket : Nat} (sends : s.sends ticket) {turn : Turn}
    (blocked : turn.party ≠ some (.connection ticket)) (taken : step s turn = some s') : s'.sends ticket := by
  cases turn with
  | accept answer => exact sends_kept sends (acceptTurn_threads taken)
  | stopper => exact sends_kept sends (stopperTurn_threads taken ▸ List.prefix_rfl)
  | start | opens fd | closes fd =>
    simp only [step] at taken
    split at taken <;> cases taken
    exact sends
  | stop =>
    simp only [step] at taken
    split at taken <;> cases taken <;> exact sends
  | connection i store received now sent =>
    obtain ⟨t, left, last, here, running, doing⟩ := sends
    have inside := (List.getElem?_eq_some_iff.mp here).1
    by_cases mine : i = ticket
    · subst mine
      have unfinished : ¬t.done = true := by simp [running]
      have alive : ¬t.connection.closed = true := by simp [Talk.closed, doing]
      have still :
          store.turn t.connection { stopRequested := s.stopRequested, received, now } sent = t.connection := by
        rw [QueryServer.turn, doing]
        cases sent with
        | none => rfl
        | some sent =>
          cases sent with
          | again => rfl
          | _ => exact absurd rfl blocked
      rw [step, Server.connectionTurn, here] at taken
      simp only at taken
      rw [if_neg unfinished, if_neg alive, still, if_neg alive] at taken
      cases taken
      exact ⟨t, left, last, List.getElem?_set_self inside, running, doing⟩
    · obtain ⟨u, threads⟩ := connectionTurn_threads taken
      exact ⟨t, left, last, by rw [threads, List.getElem?_set_ne mine, here], running, doing⟩

/-- Once stop has been called it returns, in every schedule that never leaves out the caller of
stop, the accept thread or a connection's thread for good and in which no send blocks or is retried
for ever, whatever the clients, the clock, the store and the rest of the process do in between. While
a connection's thread is in a send that never comes back, stop does not return. -/
theorem requested_stop_returns {s₀ : Server} {fd : Nat} (constructed : Constructed s₀ fd) (schedule : Nat → Turn)
    (stopper : FairTo schedule fun turn => turn.party = some .stopper)
    (acceptor : FairTo schedule fun turn => turn.party = some .acceptor) :
    ((∀ ticket, FairTo schedule fun turn => turn.party = some (.connection ticket)) →
      LeadsTo (along step s₀ schedule) (fun s => s.stopRequested = true) Stopped) ∧
    ∀ n ticket, (along step s₀ schedule n).sends ticket →
      (∀ m, n ≤ m → (schedule m).party ≠ some (.connection ticket)) →
      ∀ m, n ≤ m → (along step s₀ schedule m).stopping ≠ .returned := by
  constructor
  · intro connections
    have fair (party : Party) : FairTo schedule fun turn => turn.party = some party := by
      cases party with
      | stopper => exact stopper
      | acceptor => exact acceptor
      | connection ticket => exact connections ticket
    have leads : LeadsTo (along step s₀ schedule)
        (fun s => (Control s ∧ Descriptors s) ∧ s.stopRequested = true) Stopped := by
      refine leads_by_rank _ _ Server.rank (fun s turn => turn.party = some s.needed) ?_ ?_ ?_ ?_
      · rintro s turn s' ⟨⟨control, descriptors⟩, requested⟩ taken
        exact ⟨⟨step_control control taken, step_descriptors control descriptors taken⟩,
          step_requested control requested taken⟩
      · rintro s turn s' ⟨⟨control, -⟩, requested⟩ taken
        refine .inr ((step_rank control requested taken).imp_right fun ⟨same, needed, idle⟩ => ⟨same, ?_, idle⟩)
        rw [needed]
      · rintro s turn ⟨⟨control, descriptors⟩, requested⟩ unmet helps
        exact needed_enabled control requested (fun returned => unmet (returned_stopped control descriptors returned))
          helps
      · exact fun s _ _ => fair s.needed
    intro n requested
    have reached : Transition.Reachable step s₀ (along step s₀ schedule n) := along_reachable n
    exact leads n ⟨⟨reachable_control constructed reached, reachable_descriptors constructed reached⟩, requested⟩
  · intro n ticket sends blocked m later returned
    have still : (along step s₀ schedule m).sends ticket := by
      clear returned
      induction m, later using Nat.le_induction with
      | base => exact sends
      | succ m later ih =>
        rcases along_succ step s₀ schedule m with same | taken
        · rw [same]
          exact ih
        · exact step_sends ih (blocked m later) taken
    have reached : Transition.Reachable step s₀ (along step s₀ schedule m) := along_reachable m
    have stopped := returned_stopped (reachable_control constructed reached)
      (reachable_descriptors constructed reached) returned
    obtain ⟨t, left, last, here, running, -⟩ := still
    have done := stopped.finished ticket (List.getElem?_eq_some_iff.mp here).1
    rw [Server.done, here, Option.map_some, Option.getD_some, running] at done
    cases done

section OneClient

def askedStore : QueryServer := ⟨.dataVersionRefs, .versionRefs, []⟩

def askedStart : Server := { listenFd := some 3, owner := fun f => if f = 3 then some .listener else none }

-- A client connects and sends a line, and stop is called before the answer is sent.
def askedOpening : List Turn :=
  [.start, .accept {}, .accept {}, .accept { ready := true }, .accept { fd := some 4 }, .accept {},
    .connection 0 askedStore .again 1 none,
    .connection 0 askedStore (.chunk ⟨text "x\n", by decide +kernel, by decide +kernel⟩) 1 none, .stop]

-- Every party takes turns from then on, and all sends return this.
def askedSchedule (sent : Option Sent) : Nat → Turn :=
  dovetail askedOpening fun k =>
    if k = 0 then .stopper else if k = 1 then .accept {} else .connection (k - 2) askedStore .again 2 sent

theorem requested_stop_returns_one_client :
    (∃ m, 9 ≤ m ∧ Stopped (along step askedStart (askedSchedule (some .failed)) m)) ∧
      ∀ m, 9 ≤ m → (along step askedStart (askedSchedule none) m).stopping ≠ .returned := by
  have listening : Constructed askedStart 3 := ⟨⟨_, rfl⟩, rfl, fun f other => .inl (if_neg other)⟩
  have stopper (sent : Option Sent) : FairTo (askedSchedule sent) fun turn => turn.party = some .stopper :=
    (dovetail_fair askedOpening _ 0).mono fun turn same => by rw [same]; rfl
  have acceptor (sent : Option Sent) : FairTo (askedSchedule sent) fun turn => turn.party = some .acceptor :=
    (dovetail_fair askedOpening _ 1).mono fun turn same => by rw [same]; rfl
  constructor
  · refine (requested_stop_returns listening _ (stopper _) (acceptor _)).1 (fun ticket => ?_) 9 (by rfl)
    exact (dovetail_fair askedOpening _ (ticket + 2)).mono fun turn same => by rw [same]; rfl
  · refine (requested_stop_returns listening _ (stopper _) (acceptor _)).2 9 0 ?_ fun m later => ?_
    · exact ⟨_, _, _, rfl, rfl, rfl⟩
    · rw [askedSchedule, dovetail_later _ _ later]
      split_ifs <;> simp [Turn.party, comesBack]

end OneClient

end Lifecycle

end ItchLob.Net
