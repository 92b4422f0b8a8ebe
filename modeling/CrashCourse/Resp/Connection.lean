import CrashCourse.Resp.Framing

/-!
A client connection: `serve_client` collects its reads in a buffer and takes whole frames off it.
-/

namespace CrashCourse.Resp

/-- What a read of the stream gives; one of no bytes is the end of the stream. -/
inductive Event where
  | read (bytes : Bytes)
  | timeout (stopping : Bool)
  | failed

def Event.bytes : Event → Bytes
  | .read bytes => bytes
  | _ => []

inductive Closing where
  | ended | stopped | failed | oversized
  | refused (error : RespError)
  | fenced

/-- The bytes not parsed yet, the values handed on, and why it was closed. -/
structure Connection where
  buffer : Bytes
  values : List RespValue
  closing : Option Closing

namespace Connection

section
variable (serves : Nat → Bool)

/-- The inner loop of `serve_client`; every turn that goes on takes bytes. The answer of
`serves_clients` may change with every frame. -/
def drain : Nat → Connection → Connection
  | 0, connection => connection
  | fuel + 1, connection =>
    match parse connection.buffer with
    | .error .incomplete => connection
    | .error error => { connection with closing := some (.refused error) }
    | .ok (value, used) =>
      let buffer := connection.buffer.drop used
      if !serves connection.values.length then { connection with buffer, closing := some .fenced }
      else drain fuel { connection with buffer, values := connection.values ++ [value] }

/-- What follows a read that did not end the loop. -/
def handle (connection : Connection) (read : Bytes) : Connection :=
  let buffer := connection.buffer ++ read
  if buffer.length > 2 * maxFrame then { connection with buffer, closing := some .oversized }
  else drain serves (buffer.length + 1) { connection with buffer }

def receive (connection : Connection) (event : Event) : Connection :=
  if connection.closing.isSome then connection
  else match event with
    | .read [] => { connection with closing := some .ended }
    | .read bytes => connection.handle serves bytes
    | .timeout true => { connection with closing := some .stopped }
    | .timeout false => connection.handle serves []
    | .failed => { connection with closing := some .failed }

def serve (events : List Event) : Connection := events.foldl (receive serves) ⟨[], [], none⟩

end
end Connection

/-- Bytes, at most as many as a read has room for, or a time-out of a host that goes on. -/
def Event.goesOn : Event → Prop
  | .read bytes => bytes ≠ [] ∧ bytes.length ≤ 8 * 1024
  | .timeout stopping => stopping = false
  | .failed => False

/-- A value whose frame the parser takes. -/
def Carried (value : RespValue) : Prop := Framed 65 value ∧ (encode value).length ≤ maxFrame

theorem encode_nonempty (value : RespValue) : 0 < (encode value).length := by
  cases value with
  | bulk bytes => cases bytes <;> simp [encode]
  | _ => simp [encode]

theorem encodeAll_append (first second : List RespValue) :
    encodeAll (first ++ second) = encodeAll first ++ encodeAll second := by
  induction first with
  | nil => rfl
  | cons value first ih => rw [List.cons_append, encodeAll, encodeAll, ih, List.append_assoc]

namespace Connection

/-- Of the bytes `taken` so far all whole frames are handed on, and a part of the next one is kept. -/
structure Caught (values : List RespValue) (taken : Bytes) (connection : Connection) : Prop where
  stays : connection.closing = none
  split : ∃ left, connection.values ++ left = values ∧ encodeAll connection.values ++ connection.buffer = taken ∧
    ∀ next, left.head? = some next → connection.buffer.length < (encode next).length

section
variable {serves : Nat → Bool} {values : List RespValue} (serving : ∀ frame < values.length, serves frame = true)
  (carried : ∀ value ∈ values, Carried value)
include serving carried

theorem drain_caught {earlier left : List RespValue} (whole : earlier ++ left = values) {buffer : Bytes}
    (start : buffer <+: encodeAll left) (fuel : Nat) (enough : buffer.length ≤ fuel) :
    (drain serves (fuel + 1) ⟨buffer, earlier, none⟩).Caught values (encodeAll earlier ++ buffer) := by
  induction left generalizing earlier buffer fuel with
  | nil =>
    obtain rfl := List.prefix_nil.mp start
    exact ⟨rfl, [], whole, rfl, by simp⟩
  | cons value left ih =>
    have value_carried := carried value (by simp [← whole])
    have frames := encode_frames value_carried.1
    rw [encodeAll] at start
    rw [drain, parse]
    -- the next frame is there in part, or whole with the start of what follows behind it
    by_cases short : buffer.length < (encode value).length
    · have part := List.prefix_of_prefix_length_le start (List.prefix_append _ _) short.le
      rw [List.prefix_iff_eq_take.mp part, frames.cut _ short]
      exact ⟨rfl, value :: left, whole, rfl, by rintro _ ⟨⟩; simpa using short⟩
    · obtain ⟨behind, rfl⟩ := List.prefix_of_prefix_length_le (List.prefix_append _ _) start (not_lt.mp short)
      have nonempty := encode_nonempty value
      rw [List.length_append] at enough
      obtain ⟨fuel, rfl⟩ : ∃ less, fuel = less + 1 := ⟨fuel - 1, by omega⟩
      have served := serving earlier.length (by simp [← whole])
      have rest := @ih (earlier ++ [value]) (by simpa using whole) behind
        ((List.prefix_append_right_inj _).mp start) fuel (by omega)
      rw [frames.whole]
      simpa [not_lt.mpr value_carried.2, served, encodeAll_append, encodeAll] using rest

theorem Caught.handle {taken : Bytes} {connection : Connection} (caught : connection.Caught values taken)
    {read : Bytes} (small : read.length ≤ 8 * 1024) (start : taken ++ read <+: encodeAll values) :
    (connection.handle serves read).Caught values (taken ++ read) := by
  obtain ⟨buffer, earlier, closing⟩ := connection
  obtain ⟨rfl : closing = none, left, rfl, rfl, shorter⟩ := caught
  rw [encodeAll_append, List.append_assoc, List.prefix_append_right_inj] at start
  have fits : ¬ (buffer ++ read).length > 2 * maxFrame := by
    cases left with
    | nil => simp [List.prefix_nil.mp start]
    | cons next left =>
      have bound := (carried next (by simp)).2
      have below := shorter next rfl
      simp only [List.length_append, maxFrame] at *
      omega
  rw [List.append_assoc, Connection.handle]
  dsimp only
  rw [if_neg fits]
  exact drain_caught serving carried rfl start _ le_rfl

theorem Caught.receive {taken : Bytes} {connection : Connection} (caught : connection.Caught values taken)
    {event : Event} (open_ : event.goesOn) (start : taken ++ event.bytes <+: encodeAll values) :
    (connection.receive serves event).Caught values (taken ++ event.bytes) := by
  unfold Connection.receive
  rw [caught.stays, if_neg (by simp)]
  cases event with
  | read bytes =>
    obtain ⟨first, rest, rfl⟩ := List.exists_cons_of_ne_nil open_.1
    exact caught.handle serving carried open_.2 start
  | timeout stopping =>
    obtain rfl : stopping = false := open_
    exact caught.handle serving carried (Nat.zero_le _) start
  | failed => exact open_.elim

end
end Connection

end CrashCourse.Resp
