import Mathlib

set_option autoImplicit false

namespace ItchLob.Pipeline

structure LocateSnapshot where
  locate : UInt16 := 0
  hasBid : Bool := false
  bidPrice : UInt32 := 0
  bidShares : UInt64 := 0
  hasAsk : Bool := false
  askPrice : UInt32 := 0
  askShares : UInt64 := 0
  openOrders : Nat := 0
  bidLevels : Nat := 0
  askLevels : Nat := 0
  deriving DecidableEq, Repr

-- Every method runs under the mutex: each is one atomic step.
structure SnapshotStore where
  data : List LocateSnapshot := []
  version : UInt64 := 0
  unknownRefs : UInt64 := 0

namespace SnapshotStore

def publish (s : SnapshotStore) (next : List LocateSnapshot) (unknownRefs : UInt64) : SnapshotStore :=
  { data := next, unknownRefs, version := s.version + 1 }

def readAll (s : SnapshotStore) : List LocateSnapshot := s.data

def find (s : SnapshotStore) (locate : UInt16) : Option LocateSnapshot :=
  s.data.find? fun entry => entry.locate = locate

end SnapshotStore

structure Publish where
  next : List LocateSnapshot
  unknownRefs : UInt64 := 0

def published (history : List Publish) : SnapshotStore :=
  history.foldl (fun s p => s.publish p.next p.unknownRefs) {}

theorem published_append (seen : List Publish) (p : Publish) :
    published (seen ++ [p]) = (published seen).publish p.next p.unknownRefs := by
  simp [published]

theorem published_version (history : List Publish) :
    (published history).version = UInt64.ofNat history.length := by
  induction history using List.reverseRecOn with
  | nil => rfl
  | append_singleton seen p ih =>
    rw [published_append, SnapshotStore.publish, ih, List.length_append, List.length_singleton, UInt64.ofNat_add]
    rfl

end ItchLob.Pipeline
