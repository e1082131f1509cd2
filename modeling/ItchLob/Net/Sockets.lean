import ItchLob.Io.Handles
import ItchLob.Net.ServerLifecycle

set_option autoImplicit false

namespace ItchLob.Net

namespace Sockets

open Ownership Io.Handles

structure MulticastReceiver where
  fd : Option Nat := none
  deriving DecidableEq, Repr

namespace MulticastReceiver

structure Args where
  group : String
  port : UInt16
  recvTimeout : Int := 0

def construct (a : Args) : Sys MulticastReceiver := do
  let some fd ← acquire Handle.fd | abandon [] fun code => ⟨code, "socket failed"⟩
  let some _ ← check | abandon [.fd fd] fun code => ⟨code, "setsockopt(SO_REUSEADDR) failed"⟩
  let some _ ← check | abandon [.fd fd] fun code => ⟨code, "bind failed: port " ++ toString a.port⟩
  let parsed ← convert
  if parsed then
    let some _ ← check | abandon [.fd fd] fun code => ⟨code, "IP_ADD_MEMBERSHIP failed for group " ++ a.group⟩
    if 0 < a.recvTimeout then
      let some _ ← check | abandon [.fd fd] fun code => ⟨code, "setsockopt(SO_RCVTIMEO) failed"⟩
      return { fd := some fd }
    else return { fd := some fd }
  else abandon [.fd fd] fun _ => ⟨EINVAL, "invalid multicast group address: " ++ a.group⟩

def destroy (s : MulticastReceiver) : Sys Unit :=
  match s.fd with
  | some fd => release (.fd fd)
  | none => pure ()

def moveConstruct (other : MulticastReceiver) : MulticastReceiver × MulticastReceiver := (other, {})

def moveAssign (this other : MulticastReceiver) : Sys (MulticastReceiver × MulticastReceiver) := do
  this.destroy
  return (other, {})

def handles (s : MulticastReceiver) : List Handle := (s.fd.map Handle.fd).toList

end MulticastReceiver

structure MoldUdp64Receiver where
  data : MulticastReceiver
  requestFd : Nat
  deriving DecidableEq, Repr

namespace MoldUdp64Receiver

structure Args where
  data : MulticastReceiver.Args
  requestHost : String

-- An exception of the body destroys the member data_, which is built by then; the code
-- for a bad host is errno as it was, which inet_pton has not set.
def construct (a : Args) : Sys MoldUdp64Receiver := do
  let data ← MulticastReceiver.construct a.data
  let body : Sys MoldUdp64Receiver := do
    let some fd ← acquire Handle.fd | abandon [] fun code => ⟨code, "socket failed (request channel)"⟩
    let parsed ← convert
    if parsed then
      -- set_recv_timeout, whose result is not looked at.
      let _ ← check
      return { data, requestFd := fd }
    else abandon [.fd fd] fun code => ⟨code, "invalid request-channel host: " ++ a.requestHost⟩
  unwinding body data.destroy

def destroy (s : MoldUdp64Receiver) : Sys Unit := do
  release (.fd s.requestFd)
  s.data.destroy

def handles (s : MoldUdp64Receiver) : List Handle := .fd s.requestFd :: s.data.handles

end MoldUdp64Receiver

structure MoldUdp64Sender where
  dataFd : Nat
  requestFd : Nat
  deriving DecidableEq, Repr

namespace MoldUdp64Sender

structure Args where
  group : String
  requestPort : UInt16

-- The two unchecked calls set IP_MULTICAST_LOOP and SO_REUSEADDR.
def construct (a : Args) : Sys MoldUdp64Sender := do
  let some data ← acquire Handle.fd | abandon [] fun code => ⟨code, "socket failed (data channel)"⟩
  let parsed ← convert
  if parsed then
    let _ ← check
    let some request ← acquire Handle.fd
      | abandon [.fd data] fun code => ⟨code, "socket failed (request channel)"⟩
    let _ ← check
    let some _ ← check
      | abandon [.fd data, .fd request]
          fun code => ⟨code, "bind failed (request channel): port " ++ toString a.requestPort⟩
    return { dataFd := data, requestFd := request }
  else abandon [.fd data] fun code => ⟨code, "invalid multicast group address: " ++ a.group⟩

def destroy (s : MoldUdp64Sender) : Sys Unit := do
  release (.fd s.dataFd)
  release (.fd s.requestFd)

def handles (s : MoldUdp64Sender) : List Handle := [.fd s.dataFd, .fd s.requestFd]

end MoldUdp64Sender

namespace QueryServer

-- listen_fd_; the constructor starts no thread.
def construct (port : UInt16) : Sys Nat := do
  let some fd ← acquire Handle.fd | abandon [] fun code => ⟨code, "socket failed"⟩
  let some _ ← check | abandon [.fd fd] fun code => ⟨code, "setsockopt(SO_REUSEADDR) failed"⟩
  let parsed ← convert
  if parsed then
    let some _ ← check | abandon [.fd fd] fun code => ⟨code, "bind failed: port " ++ toString port⟩
    let some _ ← check | abandon [.fd fd] fun code => ⟨code, "listen failed"⟩
    let some _ ← check | abandon [.fd fd] fun code => ⟨code, "getsockname failed"⟩
    return fd
  else abandon [.fd fd] fun _ => ⟨EINVAL, "invalid bind address"⟩

def built (held : List Handle) (fd : Nat) : Lifecycle.Server :=
  { listenFd := some fd
    owner := fun f =>
      if f = fd then some .listener else if Handle.fd f ∈ held then some .elsewhere else none }

end QueryServer

section Specs

variable {A : Type} {hs : List Handle} {code : Nat} {failed : Option Nat} {post : A → World Handle → Prop}

def Thrown (others : List SystemError) (hs : List Handle) (e : SystemError) (w : World Handle) : Prop :=
  Reported hs e w ∨ Holds hs w ∧ e ∈ others

variable {others : List SystemError}

theorem Thrown.holds {e : SystemError} {w : World Handle} (thrown : Thrown others hs e w) : Holds hs w := by
  rcases thrown with reported | ⟨holds, -⟩
  · exact reported.holds
  · exact holds

theorem Thrown.mono {others' : List SystemError} {e : SystemError} {w : World Handle} (thrown : Thrown others hs e w)
    (within : others ⊆ others') : Thrown others' hs e w :=
  thrown.imp_right (And.imp_right fun listed => within listed)

theorem report_thrown (handles : List Handle) (what : String) :
    Triple (Failed (handles ++ hs)) (abandon handles fun code => ⟨code, what⟩ : Sys A) post (Thrown others hs) :=
  (report_spec handles what).weaken (fun _ failed => failed) (fun _ _ holds => holds)
    fun _ _ reported => .inl reported

theorem address_thrown (handles : List Handle) {error : Nat → SystemError} (listed : error code ∈ others) :
    Triple (At (handles ++ hs) code failed) (abandon handles error : Sys A) post (Thrown others hs) := by
  refine (abandon_spec handles error).weaken (fun _ at' => at') (fun _ _ holds => holds) ?_
  rintro e w ⟨rfl, c, at'⟩
  exact .inr ⟨at'.holds, listed⟩

namespace MulticastReceiver

def badGroup (a : Args) : SystemError := ⟨EINVAL, "invalid multicast group address: " ++ a.group⟩

theorem construct_spec (a : Args) :
    Triple (At hs code failed) (construct a) (fun s => At (s.handles ++ hs) code failed)
      (Thrown [badGroup a] hs) := by
  refine (acquire_spec Handle.fd).bind fun opened => ?_
  cases opened with
  | none => exact report_thrown [] _
  | some fd =>
    refine check_spec.bind fun reused => ?_
    cases reused with
    | none => exact report_thrown [.fd fd] _
    | some _ =>
      refine check_spec.bind fun bound => ?_
      cases bound with
      | none => exact report_thrown [.fd fd] _
      | some _ =>
        refine convert_spec.bind fun parsed => ?_
        cases parsed with
        | false => exact address_thrown [.fd fd] (by simp [badGroup])
        | true =>
          refine check_spec.bind fun joined => ?_
          cases joined with
          | none => exact report_thrown [.fd fd] _
          | some _ =>
            by_cases timed : 0 < a.recvTimeout
            · simp only [timed, if_true]
              refine check_spec.bind fun limited => ?_
              cases limited with
              | none => exact report_thrown [.fd fd] _
              | some _ => exact Triple.pure _ fun w at' => at'
            · simp only [timed, if_false]
              exact Triple.pure _ fun w at' => at'

theorem destroy_spec (s : MulticastReceiver) :
    Triple (At (s.handles ++ hs) code failed) s.destroy (fun _ w => ∃ c, At hs c failed w) fun _ _ => False := by
  obtain ⟨_ | fd⟩ := s
  · exact Triple.pure () fun w at' => ⟨code, at'⟩
  · exact release_spec _

theorem destroy_thrown (s : MulticastReceiver) (e : SystemError) :
    Triple (Thrown others (s.handles ++ hs) e) s.destroy (fun _ => Thrown others hs e) fun _ _ => False := by
  rintro w (⟨c, at'⟩ | ⟨⟨c, f, at'⟩, listed⟩)
  · exact ((destroy_spec s).weaken (fun _ at' => at') (fun _ _ closed => .inl closed) fun _ _ never => never) w at'
  · exact ((destroy_spec s).weaken (fun _ at' => at') (fun _ _ ⟨_, closed⟩ => .inr ⟨closed.holds, listed⟩)
      fun _ _ never => never) w at'

end MulticastReceiver

namespace MoldUdp64Receiver

-- The code is errno as the constructor found it.
def badHost (a : Args) (errno : Nat) : SystemError := ⟨errno, "invalid request-channel host: " ++ a.requestHost⟩

theorem construct_spec (a : Args) :
    Triple (At hs code failed) (construct a) (fun s => Holds (s.handles ++ hs))
      (Thrown [MulticastReceiver.badGroup a.data, badHost a code] hs) := by
  have opened : Triple (At hs code failed) (MulticastReceiver.construct a.data)
      (fun data => At (data.handles ++ hs) code failed)
      (Thrown [MulticastReceiver.badGroup a.data, badHost a code] hs) :=
    (MulticastReceiver.construct_spec a.data).weaken (fun _ at' => at') (fun _ _ at' => at')
      fun e w thrown => thrown.mono (by simp)
  refine opened.bind fun data => ?_
  refine Triple.unwinding ?_ (fun e => data.destroy_thrown e) fun _ _ never => never
  refine (acquire_spec Handle.fd).bind fun opened => ?_
  cases opened with
  | none => exact report_thrown [] _
  | some fd =>
    refine convert_spec.bind fun parsed => ?_
    cases parsed with
    | false => exact address_thrown [.fd fd] (by simp [badHost])
    | true => exact unchecked_spec.bind fun _ => Triple.pure _ fun w holds => holds

theorem destroy_spec (s : MoldUdp64Receiver) :
    Triple (At (s.handles ++ hs) code failed) s.destroy (fun _ w => ∃ c, At hs c failed w) fun _ _ => False :=
  (release_spec _).bind fun _ => Triple.exists fun _ => MulticastReceiver.destroy_spec s.data

end MoldUdp64Receiver

namespace MoldUdp64Sender

-- The code is errno as the constructor found it.
def badGroup (a : Args) (errno : Nat) : SystemError := ⟨errno, "invalid multicast group address: " ++ a.group⟩

theorem construct_spec (a : Args) :
    Triple (At hs code failed) (construct a) (fun s => Holds (s.handles ++ hs)) (Thrown [badGroup a code] hs) := by
  refine (acquire_spec Handle.fd).bind fun opened => ?_
  cases opened with
  | none => exact report_thrown [] _
  | some data =>
    refine convert_spec.bind fun parsed => ?_
    cases parsed with
    | false => exact address_thrown [.fd data] (by simp [badGroup])
    | true =>
      refine unchecked_spec.bind fun _ => Triple.exists fun _ => Triple.exists fun _ => ?_
      refine (acquire_spec Handle.fd).bind fun opened => ?_
      cases opened with
      | none => exact report_thrown [.fd data] _
      | some request =>
        refine unchecked_spec.bind fun _ => Triple.exists fun _ => Triple.exists fun _ => ?_
        refine check_spec.bind fun bound => ?_
        cases bound with
        | none =>
          exact (report_thrown [.fd data, .fd request] _).weaken (fun w failed => failed.perm (.swap ..))
            (fun _ _ holds => holds) fun _ _ thrown => thrown
        | some _ => exact Triple.pure _ fun w at' => (At.perm at' (.swap ..)).holds

theorem destroy_spec (s : MoldUdp64Sender) :
    Triple (At (s.handles ++ hs) code failed) s.destroy (fun _ w => ∃ c, At hs c failed w) fun _ _ => False :=
  (release_spec _).bind fun _ => Triple.exists fun _ => release_spec _

end MoldUdp64Sender

namespace QueryServer

theorem construct_spec (port : UInt16) :
    Triple (At hs code failed) (construct port) (fun fd => At (.fd fd :: hs) code failed)
      (Thrown [⟨EINVAL, "invalid bind address"⟩] hs) := by
  refine (acquire_spec Handle.fd).bind fun opened => ?_
  cases opened with
  | none => exact report_thrown [] _
  | some fd =>
    refine check_spec.bind fun reused => ?_
    cases reused with
    | none => exact report_thrown [.fd fd] _
    | some _ =>
      refine convert_spec.bind fun parsed => ?_
      cases parsed with
      | false => exact address_thrown [.fd fd] (by simp)
      | true =>
        refine check_spec.bind fun bound => ?_
        cases bound with
        | none => exact report_thrown [.fd fd] _
        | some _ =>
          refine check_spec.bind fun listening => ?_
          cases listening with
          | none => exact report_thrown [.fd fd] _
          | some _ =>
            refine check_spec.bind fun named => ?_
            cases named with
            | none => exact report_thrown [.fd fd] _
            | some _ => exact Triple.pure _ fun w at' => at'

theorem construct_listens (port : UInt16) :
    Triple (At hs code failed) (construct port)
      (fun fd w => At (.fd fd :: hs) code failed w ∧ Lifecycle.Constructed (built hs fd) fd)
      (Thrown [⟨EINVAL, "invalid bind address"⟩] hs) := by
  refine (construct_spec port).weaken (fun _ at' => at') (fun fd w at' => ⟨at', ⟨_, rfl⟩, if_pos rfl, ?_⟩)
    fun _ _ thrown => thrown
  intro f apart
  by_cases held : Handle.fd f ∈ hs
  · exact .inr (by simp [built, apart, held])
  · exact .inl (by simp [built, apart, held])

end QueryServer

end Specs

def MulticastReceiver.cls : Class Handle SystemError where
  Object := MulticastReceiver
  Args := Args
  construct := construct
  destroy := destroy
  handles := handles
  moves := some
    { construct := moveConstruct
      assign := moveAssign
      constructs := fun other => by simp [moveConstruct, handles]
      assigns := fun this other hs =>
        (closing fun _ _ => destroy_spec this).bind fun _ =>
          Triple.pure _ fun w holds => by simpa [handles] using holds }
  constructs := fun a _ =>
    lawful
      (fun _ _ => (construct_spec a).weaken (fun _ at' => at') (fun _ _ at' => at'.holds) fun _ _ thrown => thrown)
      fun _ _ _ thrown => thrown.holds
  destroys := fun o _ => closing fun _ _ => destroy_spec o

def MoldUdp64Receiver.cls : Class Handle SystemError where
  Object := MoldUdp64Receiver
  Args := Args
  construct := construct
  destroy := destroy
  handles := handles
  moves := none
  constructs := fun a _ => lawful (fun _ _ => construct_spec a) fun _ _ _ thrown => thrown.holds
  destroys := fun o _ => closing fun _ _ => destroy_spec o

def MoldUdp64Sender.cls : Class Handle SystemError where
  Object := MoldUdp64Sender
  Args := Args
  construct := construct
  destroy := destroy
  handles := handles
  moves := none
  constructs := fun a _ => lawful (fun _ _ => construct_spec a) fun _ _ _ thrown => thrown.holds
  destroys := fun o _ => closing fun _ _ => destroy_spec o

inductive Kind where
  | mmapSource
  | gzipSource
  | multicastReceiver
  | moldReceiver
  | moldSender
  deriving DecidableEq, Repr

def classes : Kind → Class Handle SystemError
  | .mmapSource => MmapSource.cls
  | .gzipSource => GzipSource.cls
  | .multicastReceiver => MulticastReceiver.cls
  | .moldReceiver => MoldUdp64Receiver.cls
  | .moldSender => MoldUdp64Sender.cls

structure Balanced {S : Type} [DecidableEq S] (outside : List Handle) (p : Program classes S) : Prop where
  faults : p.world.faults = []
  held : ∀ h, h ∈ p.world.held ↔
    h ∈ outside ∨ ∃ place o, p.objects.lookup place = some o ∧ h ∈ Object.handles classes o
  exclusive : ∀ place place' o o' h, p.objects.lookup place = some o → p.objects.lookup place' = some o' →
    h ∈ Object.handles classes o → h ∈ Object.handles classes o' → place = place'
  ended : (∀ place, p.objects.lookup place = none) → p.world.held.Perm outside

/-- However objects of these classes are built, moved and destroyed and whichever calls
fail, nothing is closed twice, every handle has one owner, and when no object is left
everything they opened has been closed. -/
theorem handles_balanced {S : Type} [DecidableEq S] {outside : List Handle} {errno : Nat} {p : Program classes S}
    (apart : outside.Nodup)
    (reached : Transition.Reachable step { world := { held := outside, errno } } p) : Balanced outside p := by
  have owns := reachable_owned apart reached
  exact ⟨owns.faults, owns.mem_held, fun _ _ _ _ _ here there mine yours => owns.exclusive here there mine yours,
    owns.ended⟩

-- A mapping is moved while a receiver fails to bind; then both places are destroyed.
def remapped : List (Op classes Nat × List Answer) :=
  [ (.construct 0 .mmapSource "day.itch", [{ number := 4 }, { number := 100 }, { number := 4096 }, {}, {}]),
    (.construct 1 .multicastReceiver ⟨"239.1.1.1", 30001, 200⟩,
      [{ number := 4 }, {}, { fine := false, errno := 98 }]),
    (.moveConstruct 2 0, []),
    (.destroy 0, []),
    (.destroy 2, [{}]) ]

theorem handles_balanced_remapped :
    ∃ p, Transition.execute step { world := { held := [.fd 3] } } remapped = some p ∧ Balanced [.fd 3] p := by
  have runs : ∃ p, Transition.execute step { world := { held := [.fd 3] } } remapped = some p := ⟨_, rfl⟩
  obtain ⟨p, ran⟩ := runs
  exact ⟨p, ran, handles_balanced (List.nodup_singleton _) (Transition.Reachable.execute .start ran)⟩

end Sockets

end ItchLob.Net
