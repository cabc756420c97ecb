import Mathlib.Data.List.Basic
import ServerStream.Runtime.MessageQueue

/-!
# The bytes of a received message

What `UnixMessageQueueListener<S>::loop` does to the memory from the start of
`MsgBuffer.mtext` on when it has received a message: `msgrcv` copies the message,
`loop` stores the terminator, and the construction of the `String` reads up to
the first `NUL`. `Memory.touched` is not part of the program; it lists the
indices that are written and read, in order.

The string is the one of `MsgBuffer.text` (`receive_eq_text`), which `loop` gives
to the callback.
-/

namespace ServerStream

namespace Runtime

/-- The memory from the start of the array on, and its history. -/
structure Memory where
  byte : ℕ → UInt8
  touched : List ℕ

namespace Memory

/-- The buffer before anything has been received. -/
def ofBuffer (buf : MsgBuffer) : Memory where
  byte := buf.mtext
  touched := []

/-- `mtext[i] = b`. -/
def store (i : ℕ) (b : UInt8) (mem : Memory) : Memory where
  byte := Function.update mem.byte i b
  touched := mem.touched ++ [i]

/-- The copy of `msgrcv`, from index `i` on. -/
def copy : ℕ → List UInt8 → Memory → Memory
  | _, [], mem => mem
  | i, b :: bs, mem => copy (i + 1) bs (mem.store i b)

/-- `String(mtext)` from index `i` on, reading at most `n` bytes. -/
def string : ℕ → ℕ → Memory → List UInt8 × Memory
  | 0, _, mem => ([], mem)
  | n + 1, i, mem =>
      if mem.byte i = 0 then ([], { mem with touched := mem.touched ++ [i] })
      else
        let (rest, mem') :=
          string n (i + 1) { mem with touched := mem.touched ++ [i] }
        (mem.byte i :: rest, mem')

end Memory

/-- What `loop` does with the message `m` once `popQueue` has taken it: the
string and the memory afterwards. The terminator at `S` ends the reading. -/
def receive (S : ℕ) (buf : MsgBuffer) (m : Message) : List UInt8 × Memory :=
  (((Memory.ofBuffer buf).copy 0 m.mtext).store S 0).string (S + 1) 0

/-- The bytes of the message up to its first `NUL`, or all of them. -/
def Message.text (m : Message) : List UInt8 := m.mtext.takeWhile fun b => b ≠ 0

/-- The message is decoded exactly, and within the array. -/
structure Decodes (S : ℕ) (m : Message) : Prop where
  inBounds : ∀ buf, ∀ i ∈ (receive S buf m).2.touched, i < S
  exact : ∀ buf, (receive S buf m).1 = m.text
  independent : ∀ buf buf', (receive S buf m).1 = (receive S buf' m).1

namespace Memory

theorem copy_byte (i : ℕ) (bs : List UInt8) (mem : Memory) (j : ℕ) :
    (mem.copy i bs).byte j =
      if i ≤ j then bs.getD (j - i) (mem.byte j) else mem.byte j := by
  induction bs generalizing i mem with
  | nil => simp [copy]
  | cons b bs ih =>
      rw [copy, ih]
      rcases Nat.lt_trichotomy j i with hlt | rfl | hlt
      · have hne : j ≠ i := by omega
        simp [store, hne, Nat.not_le.mpr hlt, show ¬ i + 1 ≤ j by omega]
      · simp [store, show ¬ j + 1 ≤ j by omega]
      · have hne : j ≠ i := by omega
        obtain ⟨d, rfl⟩ := Nat.exists_eq_add_of_lt hlt
        simp [store, hne, show i + 1 ≤ i + d + 1 by omega,
          show i ≤ i + d + 1 by omega, show i + d + 1 - (i + 1) = d by omega,
          show i + d + 1 - i = d + 1 by omega]

theorem string_fst (n i : ℕ) (mem : Memory) :
    (mem.string n i).1 =
      ((List.range' i n).map mem.byte).takeWhile fun b => b ≠ 0 := by
  induction n generalizing i mem with
  | zero => rfl
  | succ n ih =>
      by_cases hzero : mem.byte i = 0
      · simp [string, hzero, List.range'_succ]
      · simp [string, hzero, List.range'_succ, ih]

/-- Reading forgets nothing of the history. -/
theorem touched_subset_string (n i : ℕ) (mem : Memory) :
    mem.touched ⊆ (mem.string n i).2.touched := by
  induction n generalizing i mem with
  | zero => exact List.Subset.refl _
  | succ n ih =>
      by_cases hzero : mem.byte i = 0
      · simp [string, hzero]
      · have hrest := ih (i + 1) { mem with touched := mem.touched ++ [i] }
        simp only [string, hzero, if_false]
        exact fun j hj => hrest (List.mem_append_left _ hj)

end Memory

theorem takeWhile_concat_zero (bytes : List UInt8) :
    (bytes ++ [0]).takeWhile (fun b => b ≠ 0) =
      bytes.takeWhile fun b => b ≠ 0 := by
  induction bytes with
  | nil => rfl
  | cons b bs ih =>
      by_cases hzero : b = 0
      · simp [hzero]
      · simpa [hzero] using ih

theorem receive_byte (buf : MsgBuffer) (m : Message) :
    ((Memory.ofBuffer buf).copy 0 m.mtext).byte = (buf.receive m).mtext := by
  funext j
  rw [Memory.copy_byte]
  simp [Memory.ofBuffer, MsgBuffer.receive]

/-- What is read of the buffer is the text that `loop` hands on. -/
theorem receive_eq_text (S : ℕ) (buf : MsgBuffer) (m : Message) :
    (receive S buf m).1 = (buf.receive m).text S := by
  have hlast : (List.range' 0 (S + 1)).map
      (Function.update (buf.receive m).mtext S 0) =
        (List.range S).map (Function.update (buf.receive m).mtext S 0) ++ [0] := by
    simp [← List.range_eq_range', List.range_succ]
  rw [receive, Memory.string_fst, Memory.store, receive_byte, hlast,
    takeWhile_concat_zero]
  rfl

theorem loop_receive {S : ℕ} {m : Message} (h : m.Fits S) (buf : MsgBuffer)
    (queue : List Message) :
    loop S buf (m :: queue) = some (queue, some (receive S buf m).1) := by
  rw [loop_of_fits h, receive_eq_text]

/-- The terminator is stored one past the end of the array. -/
theorem mem_touched (S : ℕ) (buf : MsgBuffer) (m : Message) :
    S ∈ (receive S buf m).2.touched :=
  Memory.touched_subset_string _ _ _ (by simp [Memory.store])

theorem receive_text (S : ℕ) (buf : MsgBuffer) (m : Message) :
    (receive S buf m).1 =
      (m.mtext.take S ++ (List.range' m.mtext.length (S - m.mtext.length)).map
        buf.mtext).takeWhile fun b => b ≠ 0 := by
  have hbytes : (List.range S).map
      (Function.update (buf.receive m).mtext S 0) =
        m.mtext.take S ++ (List.range' m.mtext.length
          (S - m.mtext.length)).map buf.mtext := by
    apply List.ext_getElem
    · simp
      omega
    · intro i hi _
      have hlt : i < S := by simpa using hi
      have hne : i ≠ S := Nat.ne_of_lt hlt
      rw [List.getElem_append]
      by_cases him : i < m.mtext.length
      · have hmin : i < min S m.mtext.length := Nat.lt_min.mpr ⟨hlt, him⟩
        simp [hne, him, hmin, MsgBuffer.receive]
      · have hmin : ¬ i < min S m.mtext.length := by omega
        have hsum : m.mtext.length + (i - min S m.mtext.length) = i := by omega
        simp [hne, him, hmin, MsgBuffer.receive, hsum]
  rw [receive_eq_text, MsgBuffer.text, cString, hbytes]

theorem takeWhile_of_mem {bytes rest : List UInt8} (h : 0 ∈ bytes) :
    (bytes ++ rest).takeWhile (fun b => b ≠ 0) =
      bytes.takeWhile fun b => b ≠ 0 := by
  induction bytes with
  | nil => cases h
  | cons b bs ih =>
      by_cases hzero : b = 0
      · simp [hzero]
      · have hmem : 0 ∈ bs := by simpa [Ne.symm hzero] using h
        simpa [hzero] using ih hmem

theorem takeWhile_of_not_mem {bytes : List UInt8} (rest : List UInt8)
    (h : 0 ∉ bytes) :
    (bytes ++ rest).takeWhile (fun b => b ≠ 0) =
      bytes ++ rest.takeWhile fun b => b ≠ 0 := by
  apply List.takeWhile_append_of_pos
  intro b hb
  have hne : b ≠ 0 := fun hzero => h (hzero ▸ hb)
  simpa using hne

theorem Message.text_of_not_mem {m : Message} (h : 0 ∉ m.mtext) :
    m.text = m.mtext := by
  have happ := takeWhile_of_not_mem [] h
  simpa [Message.text] using happ

/-- A message that fits the array is followed by the old contents of the buffer,
unless it ends in a `NUL` or fills the array. -/
theorem receive_exact_iff_of_le {S : ℕ} {m : Message} (h : m.mtext.length ≤ S) :
    (∀ buf, (receive S buf m).1 = m.text) ↔
      0 ∈ m.mtext ∨ m.mtext.length = S := by
  simp only [receive_text, List.take_of_length_le h]
  by_cases hnul : 0 ∈ m.mtext
  · exact ⟨fun _ => .inl hnul, fun _ buf => takeWhile_of_mem hnul⟩
  · simp only [takeWhile_of_not_mem _ hnul, Message.text_of_not_mem hnul]
    constructor
    · intro hall
      have hone := congrArg List.length (hall ⟨0, fun _ => 1⟩)
      by_contra hne
      obtain ⟨d, hd⟩ : ∃ d, S - m.mtext.length = d + 1 :=
        ⟨S - m.mtext.length - 1, by omega⟩
      simp [hd, List.range'_succ] at hone
    · rintro (hmem | hlen) buf
      · exact absurd hmem hnul
      · simp [hlen]

/-- The last byte of a message of `S + 1` bytes is overwritten. -/
theorem receive_exact_iff_of_eq {S : ℕ} {m : Message}
    (h : m.mtext.length = S + 1) :
    (∀ buf, (receive S buf m).1 = m.text) ↔
      0 ∈ m.mtext ∨ m.mtext.length = S := by
  obtain ⟨b, hb⟩ := List.length_eq_one_iff.mp
    (show (m.mtext.drop S).length = 1 by simp [h])
  have hsplit : m.mtext = m.mtext.take S ++ [b] := by
    rw [← hb, List.take_append_drop]
  have hrest : S - m.mtext.length = 0 := by omega
  have hne : m.mtext.length ≠ S := by omega
  have : Nonempty MsgBuffer := ⟨⟨0, fun _ => 0⟩⟩
  simp only [receive_text, hrest, List.range'_zero, List.map_nil,
    List.append_nil, forall_const, or_iff_left hne]
  by_cases htake : 0 ∈ m.mtext.take S
  · have hmem : 0 ∈ m.mtext := List.mem_of_mem_take htake
    have htext : m.text = (m.mtext.take S).takeWhile fun b => b ≠ 0 := by
      rw [Message.text]
      conv_lhs => rw [hsplit]
      exact takeWhile_of_mem htake
    exact ⟨fun _ => hmem, fun _ => htext.symm⟩
  · have hkeep := takeWhile_of_not_mem [] htake
    have htext : m.text = m.mtext.take S ++ [b].takeWhile fun b => b ≠ 0 := by
      rw [Message.text]
      conv_lhs => rw [hsplit]
      exact takeWhile_of_not_mem _ htake
    simp only [List.append_nil, List.takeWhile_nil] at hkeep
    rw [hkeep, htext]
    by_cases hzero : b = 0
    · have hmem : 0 ∈ m.mtext := by
        rw [hsplit, hzero]
        simp
      simp [hzero, hmem]
    · have hmem : 0 ∉ m.mtext := by
        rw [hsplit]
        simp [htake, Ne.symm hzero]
      simp [hzero, hmem]

/-- The buffer's old contents never show if and only if the message has a `NUL`
or exactly `S` bytes. -/
theorem receive_exact_iff {S : ℕ} {m : Message} (h : m.Fits S) :
    (∀ buf, (receive S buf m).1 = m.text) ↔
      0 ∈ m.mtext ∨ m.mtext.length = S := by
  have hle : m.mtext.length ≤ S + 1 := h
  rcases Nat.le_or_eq_of_le_succ hle with hfits | hlong
  · exact receive_exact_iff_of_le hfits
  · exact receive_exact_iff_of_eq hlong

/-- No message is decoded within the array; what the callback is given is exact,
whatever the buffer held, if and only if the message has a `NUL` or exactly `S`
bytes. -/
theorem decoding {S : ℕ} {m : Message} (h : m.Fits S) :
    ¬ Decodes S m ∧
      ((∀ buf, (receive S buf m).1 = m.text) ↔
        0 ∈ m.mtext ∨ m.mtext.length = S) := by
  refine ⟨fun hdecodes => ?_, receive_exact_iff h⟩
  have hlt := hdecodes.inBounds ⟨0, fun _ => 0⟩ S (mem_touched S _ m)
  exact absurd hlt (Nat.lt_irrefl S)

/-- The message `"go"`, in an array of four bytes. -/
theorem decoding_go :
    ¬ Decodes 4 ⟨1, [103, 111]⟩ ∧
      ((∀ buf, (receive 4 buf ⟨1, [103, 111]⟩).1 = [103, 111]) ↔
        0 ∈ ([103, 111] : List UInt8) ∨ ([103, 111] : List UInt8).length = 4) :=
  decoding (m := ⟨1, [103, 111]⟩) (by decide)

/-- With the buffer size of `Application`, for a message with its `NUL`. -/
theorem not_decodes :
    ¬ ∀ S, 0 < S → ∀ m : Message, m.Fits S → Decodes S m := by
  intro hall
  have hdecodes := hall 512 (by decide) ⟨12, [103, 111, 0]⟩ (by decide)
  have hlt := hdecodes.inBounds ⟨0, fun _ => 0⟩ 512 (mem_touched 512 _ _)
  exact absurd hlt (by decide)

end Runtime

end ServerStream
