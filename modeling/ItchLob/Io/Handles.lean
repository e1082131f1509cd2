import ItchLob.Shared.Ownership

set_option autoImplicit false

namespace ItchLob.Io

namespace Handles

open Ownership

inductive Handle where
  | fd (n : Nat)
  | mapping (address size : Nat)
  | file (n : Nat)
  deriving DecidableEq, Repr

-- std::system_error: the code and what() without the text of the code.
structure SystemError where
  code : Nat
  what : String
  deriving DecidableEq, Repr

abbrev Sys (A : Type) := Prog Handle SystemError A

def EINVAL : Nat := 22

-- The exception reports the errno of the call that failed, whatever close did to errno.
def Reported (hs : List Handle) (e : SystemError) (w : World Handle) : Prop := ∃ c, At hs c (some e.code) w

/-- `data` is the address of the mapping, `none` the null pointer, which mmap never
returns here. -/
structure MmapSource where
  data : Option Nat := none
  size : Nat := 0
  deriving DecidableEq, Repr

namespace MmapSource

def construct (path : String) : Sys MmapSource := do
  let some fd ← acquire Handle.fd | abandon [] fun code => ⟨code, "open failed: " ++ path⟩
  let some size ← check | abandon [.fd fd] fun code => ⟨code, "fstat failed: " ++ path⟩
  if size = 0 then
    release (.fd fd)
    return {}
  else
    let some p ← acquire fun address => .mapping address size
      | abandon [.fd fd] fun code => ⟨code, "mmap failed: " ++ path⟩
    -- madvise, whose result is not looked at.
    let _ ← check
    release (.fd fd)
    return { data := some p, size }

def reset (s : MmapSource) : Sys Unit :=
  match s.data with
  | some p => release (.mapping p s.size)
  | none => pure ()

def moveConstruct (other : MmapSource) : MmapSource × MmapSource := (other, {})

def moveAssign (this other : MmapSource) : Sys (MmapSource × MmapSource) := do
  this.reset
  return (other, {})

def handles (s : MmapSource) : List Handle := (s.data.map fun p => Handle.mapping p s.size).toList

end MmapSource

/-- The stream of a GzipSource, which is open as long as the object lives. -/
structure GzipSource where
  file : Nat
  deriving DecidableEq, Repr

namespace GzipSource

def construct (path : String) : Sys GzipSource := do
  let some file ← acquire Handle.file | abandon [] fun code => ⟨code, "open failed: " ++ path⟩
  return { file }

def destroy (s : GzipSource) : Sys Unit := release (.file s.file)

def handles (s : GzipSource) : List Handle := [.file s.file]

end GzipSource

section Specs

variable {A : Type} {hs : List Handle} {code : Nat} {failed : Option Nat} {post : A → World Handle → Prop}

theorem Reported.holds {e : SystemError} {w : World Handle} (reported : Reported hs e w) : Holds hs w := by
  obtain ⟨c, at'⟩ := reported
  exact at'.holds

theorem report_spec (handles : List Handle) (what : String) :
    Triple (Failed (handles ++ hs)) (abandon handles fun code => ⟨code, what⟩ : Sys A) post (Reported hs) := by
  refine Triple.exists fun c => (abandon_spec handles _).weaken (fun _ at' => at') (fun _ _ holds => holds) ?_
  rintro e w ⟨rfl, c', at'⟩
  exact ⟨c', at'⟩

theorem closing {mine : List Handle} {p : Sys Unit}
    (spec : ∀ code failed,
      Triple (At (mine ++ hs) code failed) p (fun _ w => ∃ c, At hs c failed w) fun _ _ => False) :
    Triple (Holds (mine ++ hs)) p (fun _ => Holds hs) fun _ _ => False :=
  Triple.exists fun code => Triple.exists fun failed =>
    (spec code failed).weaken (fun _ at' => at') (fun _ _ ⟨_, at'⟩ => at'.holds) fun _ _ never => never

theorem MmapSource.reset_spec (s : MmapSource) :
    Triple (At (s.handles ++ hs) code failed) s.reset (fun _ w => ∃ c, At hs c failed w) fun _ _ => False := by
  obtain ⟨_ | p, size⟩ := s
  · exact Triple.pure () fun w at' => ⟨code, at'⟩
  · exact release_spec _

theorem MmapSource.construct_spec (path : String) :
    Triple (At hs code failed) (construct path) (fun s => Holds (s.handles ++ hs)) (Reported hs) := by
  refine (acquire_spec Handle.fd).bind fun opened => ?_
  cases opened with
  | none => exact report_spec [] _
  | some fd =>
    refine check_spec.bind fun stat => ?_
    cases stat with
    | none => exact report_spec [.fd fd] _
    | some size =>
      by_cases empty : size = 0
      · simp only [empty, if_true]
        refine (release_spec _).bind fun _ => Triple.exists fun c => ?_
        exact Triple.pure _ fun w at' => at'.holds
      · simp only [empty, if_false]
        refine (acquire_spec _).bind fun mapped => ?_
        cases mapped with
        | none => exact report_spec [.fd fd] _
        | some p =>
          -- Whatever madvise returns, the descriptor is closed and the mapping kept.
          have closes {c : Nat} {f : Option Nat} :
              Triple (At ([.mapping p size] ++ ([.fd fd] ++ hs)) c f)
                (do release (.fd fd); return { data := some p, size } : Sys MmapSource)
                (fun s => Holds (s.handles ++ hs)) (Reported hs) := by
            have closed : Triple (At (.mapping p size :: .fd fd :: hs) c f) (release (.fd fd) : Sys Unit)
                (fun _ w => ∃ c, At (.mapping p size :: hs) c f w) (Reported hs) :=
              (release_spec _).weaken (fun w at' => at'.perm (.swap ..)) (fun _ _ closed => closed)
                fun _ _ reported => reported
            exact closed.bind fun _ => Triple.exists fun c => Triple.pure _
              fun w (at' : At (Handle.mapping p size :: hs) c f w) => at'.holds
          exact unchecked_spec.bind fun _ => Triple.exists fun _ => Triple.exists fun _ => closes

theorem GzipSource.construct_spec (path : String) :
    Triple (At hs code failed) (construct path) (fun s => Holds (s.handles ++ hs)) (Reported hs) := by
  refine (acquire_spec Handle.file).bind fun opened => ?_
  cases opened with
  | none => exact report_spec [] _
  | some file => exact Triple.pure _ fun w at' => at'.holds

theorem GzipSource.destroy_spec (s : GzipSource) :
    Triple (At (s.handles ++ hs) code failed) s.destroy (fun _ w => ∃ c, At hs c failed w) fun _ _ => False :=
  release_spec _

end Specs

theorem lawful {A : Type} {ctor : Sys A} {handles : A → List Handle} {hs : List Handle}
    {thrown : Nat → SystemError → World Handle → Prop}
    (spec : ∀ code failed, Triple (At hs code failed) ctor (fun o => Holds (handles o ++ hs)) (thrown code))
    (keeps : ∀ code e w, thrown code e w → Holds hs w) :
    Triple (Holds hs) ctor (fun o => Holds (handles o ++ hs)) fun _ => Holds hs :=
  Triple.exists fun code => Triple.exists fun failed =>
    (spec code failed).weaken (fun _ at' => at') (fun _ _ holds => holds) (keeps code)

def MmapSource.cls : Class Handle SystemError where
  Object := MmapSource
  Args := String
  construct := construct
  destroy := reset
  handles := handles
  moves := some
    { construct := moveConstruct
      assign := moveAssign
      constructs := fun other => by simp [moveConstruct, handles]
      assigns := fun this other hs =>
        (closing fun _ _ => reset_spec this).bind fun _ =>
          Triple.pure _ fun w holds => by simpa [handles] using holds }
  constructs := fun path _ => lawful (fun _ _ => construct_spec path) fun _ _ _ reported => reported.holds
  destroys := fun o _ => closing fun _ _ => reset_spec o

def GzipSource.cls : Class Handle SystemError where
  Object := GzipSource
  Args := String
  construct := construct
  destroy := destroy
  handles := handles
  moves := none
  constructs := fun path _ => lawful (fun _ _ => construct_spec path) fun _ _ _ reported => reported.holds
  destroys := fun o _ => closing fun _ _ => destroy_spec o

end Handles

end ItchLob.Io
