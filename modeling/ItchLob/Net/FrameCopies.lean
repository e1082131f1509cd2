import ItchLob.Io.GzipSource
import ItchLob.Net.Sender

set_option autoImplicit false

namespace ItchLob.Net

open Itch hiding decode
open Framing Io

-- parse_stream, frame_boundary and load each walk the length prefixes on their
-- own; what they find is stated over the frames of the buffer.

theorem load_messages (s : Sender) (data : List UInt8) : (s.load data).messages = (frames data).map frame :=
  Sender.loadLoop_frames _ _

theorem handlerCalls_frame {p : List UInt8} (framable : Framable p) : handlerCalls (frame p) = [event p] := by
  have alone := frames_frame framable.1 framable.2 []
  rw [List.append_nil, frames_nil] at alone
  rw [handlerCalls_events, Itch.events, alone]
  rfl

theorem frames_boundary (data : List UInt8) : frames (data.take (frameBoundary data)) = frames data := by
  rw [take_frameBoundary, frames_stream _ (frames_framable data)]

/-- The three copies of the frame walk stop at the same byte: they count the same
frames, what is stored is what lies before the boundary, and parsing that, whole
or message by message, makes the calls that the whole buffer makes. -/
theorem frame_walks_agree {σ : Type} (h : Handler σ) (s : σ) (sender : Sender) (data : List UInt8) :
    let messages := (sender.load data).messages
    (parseStream h data s).2 = messages.length ∧
    messages.flatten = data.take (frameBoundary data) ∧
    handlerCalls (data.take (frameBoundary data)) = handlerCalls data ∧
    parseStream h (data.take (frameBoundary data)) s = parseStream h data s ∧
    messages.map handlerCalls = (handlerCalls data).map fun call => [call] := by
  intro messages
  have stored : messages = (frames data).map frame := load_messages sender data
  refine ⟨?_, ?_, ?_, ?_, ?_⟩
  · rw [parseStream_walk, walk_frames, stored, List.length_map]
  · rw [take_frameBoundary, stored, stream, List.flatMap_def]
  · rw [handlerCalls_events, handlerCalls_events, Itch.events, frames_boundary, Itch.events]
  · rw [parseStream_walk, parseStream_walk, walk_frames, walk_frames, frames_boundary]
  · rw [stored, handlerCalls_events, Itch.events, List.map_map, List.map_map]
    exact List.map_congr_left fun p inside => handlerCalls_frame (frames_framable data p inside)

end ItchLob.Net
