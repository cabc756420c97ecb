import Mathlib.Algebra.Group.Nat.Defs
import Mathlib.Data.List.Basic
import Mathlib.Data.Nat.Notation

/-!
# The constructors and the stack traces

What the constructors of `exceptions::Exception` and of its subclasses pass to
`init`, and how `decodeST` prints a stack trace: without `stIgnoreTop` frames at
its head and `stIgnoreBottom` at its end. The number of the frames that are left is
computed in a `size_t` and wraps around for a short trace; the frames at the head
that are skipped hide this for every pair that a constructor passes
(`decodeST_eq`).
-/

namespace ServerStream

namespace Exceptions

/-- A frame, by what is printed of it. -/
structure Frame where
  address : String
  name : String
  deriving DecidableEq, Repr

/-- `boost::stacktrace::stacktrace`, whose size is a `size_t`. -/
structure StackTrace where
  frames : List Frame
  length_lt : frames.length < 2 ^ 64

/-- The difference of two values of `size_t`. -/
def sizeSub (a b : ℕ) : ℕ := (a + (2 ^ 64 - b)) % 2 ^ 64

/-- A call of `Exception::init`, without `prev`. -/
structure Init where
  message : String
  stIgnoreBottom : ℕ
  stIgnoreTop : ℕ
  deriving DecidableEq, Repr

/-- The constructors without a nested exception. `what` is the text of a
`std::exception` or of a `system_error`. -/
inductive Constructor
  | exception
  | exceptionMessage (message : String)
  | exceptionStd (what : String)
  | exceptionCode (e : Int)
  | avError (errnum : Int)
  | wsError (what : String)
  | returnValue (functionName : String) (rcode : Int)
  | returnValueCustom (functionName rcustom : String)
  | invalidJsonConfigFound (key expected butType : String)
  | invalidJsonConfig (key expected : String)
  deriving DecidableEq, Repr

/-- The constructors that copy the exception `prev`. -/
inductive NestingConstructor
  | exception (message : String)
  | avError (errnum : Int)
  deriving DecidableEq, Repr

/-- `AvErrorException::getAvError`; `strerror` is `av_strerror`. -/
def getAvError (strerror : Int → Option String) (errnum : Int) : String :=
  "AV error: " ++ (strerror errnum).getD "Unknown error occurred" ++ " (" ++
    toString errnum ++ ")"

def getWsError (what : String) : String := "Websocket error: " ++ what

/-- The constructor `Exception()`, which the subclasses start with. -/
def defaultInit : Init := ⟨"exceptions::Exception", 2, 1⟩

/-- The calls of `init` that a constructor makes, the last one last. -/
def Constructor.inits (strerror : Int → Option String) :
    Constructor → List Init
  | exception => [defaultInit]
  | exceptionMessage message => [⟨message, 2, 1⟩]
  | exceptionStd what => [⟨what, 2, 1⟩]
  | exceptionCode e =>
      [⟨"Exception with error code " ++ toString e ++ ".", 2, 1⟩]
  | avError errnum => [defaultInit, ⟨getAvError strerror errnum, 2, 2⟩]
  | wsError what => [defaultInit, ⟨getWsError what, 2, 2⟩]
  | returnValue functionName rcode =>
      [defaultInit, ⟨"The function \"" ++ functionName ++
        "\" returns error code " ++ toString rcode, 2, 2⟩]
  | returnValueCustom functionName rcustom =>
      [defaultInit, ⟨"The function \"" ++ functionName ++
        "\" returns error code " ++ rcustom, 2, 2⟩]
  | invalidJsonConfigFound key expected butType =>
      [defaultInit, ⟨"Invalid or missing JSON key \"" ++ key ++
        "\": expected \"" ++ expected ++ "\", but found \"" ++ butType ++ "\"",
        2, 2⟩]
  | invalidJsonConfig key expected =>
      [defaultInit, ⟨"Invalid or missing JSON key \"" ++ key ++
        "\": expected \"" ++ expected ++ "\"", 2, 2⟩]

/-- The same for a constructor that nests an exception. -/
def NestingConstructor.inits (strerror : Int → Option String) :
    NestingConstructor → List Init
  | exception message => [⟨message, 2, 1⟩]
  | avError errnum => [defaultInit, ⟨getAvError strerror errnum, 2, 2⟩]

/-- `init` is called with these two counts: by one of the constructors, or by the
copy constructor for an exception that was built so. -/
inductive PassedToInit (strerror : Int → Option String) : ℕ → ℕ → Prop
  | constructor (c : Constructor) (i : Init) (h : i ∈ c.inits strerror) :
      PassedToInit strerror i.stIgnoreBottom i.stIgnoreTop
  | nesting (c : NestingConstructor) (i : Init) (h : i ∈ c.inits strerror) :
      PassedToInit strerror i.stIgnoreBottom i.stIgnoreTop
  | copy (stIgnoreBottom stIgnoreTop : ℕ)
      (h : PassedToInit strerror stIgnoreBottom stIgnoreTop) :
      PassedToInit strerror stIgnoreBottom stIgnoreTop

/-- The members of an exception, without the nested one. -/
structure Report where
  message : String
  st : StackTrace
  stIgnoreBottom : ℕ
  stIgnoreTop : ℕ

variable {strerror : Int → Option String} {stIgnoreBottom stIgnoreTop : ℕ}

theorem Constructor.inits_counts (c : Constructor) : ∀ i ∈ c.inits strerror,
    i.stIgnoreBottom = 2 ∧ (i.stIgnoreTop = 1 ∨ i.stIgnoreTop = 2) := by
  cases c <;> simp [inits, defaultInit]

theorem NestingConstructor.inits_counts (c : NestingConstructor) :
    ∀ i ∈ c.inits strerror,
      i.stIgnoreBottom = 2 ∧ (i.stIgnoreTop = 1 ∨ i.stIgnoreTop = 2) := by
  cases c <;> simp [inits, defaultInit]

/-- Two frames are cut off at the end, and one or two at the head. -/
theorem PassedToInit.counts (h : PassedToInit strerror stIgnoreBottom stIgnoreTop) :
    stIgnoreBottom = 2 ∧ (stIgnoreTop = 1 ∨ stIgnoreTop = 2) := by
  induction h with
  | constructor c i hi => exact c.inits_counts i hi
  | nesting c i hi => exact c.inits_counts i hi
  | copy _ _ _ ih => exact ih

namespace Report

/-- The loop of `Exception::decodeST`: the frames that are printed, each with the
number that stands before it. -/
def decodeLoop (r : Report) (totalFrames : ℕ) :
    List Frame → ℕ → ℕ → List (ℕ × Frame)
  | [], _, _ => []
  | frame :: frames, count, i =>
      if sizeSub totalFrames r.stIgnoreBottom ≤ count then []
      else if count < r.stIgnoreTop then
        r.decodeLoop totalFrames frames (count + 1) i
      else (i, frame) :: r.decodeLoop totalFrames frames (count + 1) (i + 1)

/-- The frames that `decodeST` prints. -/
def decoded (r : Report) : List (ℕ × Frame) :=
  r.decodeLoop r.st.frames.length r.st.frames 0 0

def decodeST (r : Report) : String :=
  String.join (r.decoded.map fun line =>
    "\t#" ++ toString line.1 ++ ": " ++ "[" ++ line.2.address ++ "] " ++
      line.2.name ++ "\n")

/-- The frames whose position is neither at the head nor at the end. -/
def kept (r : Report) : List Frame :=
  (r.st.frames.zipIdx.filter fun p =>
    r.stIgnoreTop ≤ p.2 ∧ p.2 + r.stIgnoreBottom < r.st.frames.length).map
      Prod.fst

/-- The text that is asked for: a line for each of these frames, numbered from
zero. -/
def trace (r : Report) : String :=
  String.join (r.kept.zipIdx.map fun p =>
    "\t#" ++ toString p.2 ++ ": [" ++ p.1.address ++ "] " ++ p.1.name ++ "\n")

variable {r : Report}

theorem sizeSub_of_le {a b : ℕ} (ha : a < 2 ^ 64) (h : b ≤ a) :
    sizeSub a b = a - b := by
  unfold sizeSub
  have hadd : a + (2 ^ 64 - b) = a - b + 2 ^ 64 := by omega
  rw [hadd, Nat.add_mod_right, Nat.mod_eq_of_lt (by omega)]

/-- The loop prints the frames between the head and the bound. -/
theorem decodeLoop_eq (totalFrames : ℕ) (frames : List Frame) (count i : ℕ) :
    r.decodeLoop totalFrames frames count i =
      ((((frames.zipIdx count).filter fun p => r.stIgnoreTop ≤ p.2 ∧
        p.2 < sizeSub totalFrames r.stIgnoreBottom).map Prod.fst).zipIdx i).map
          Prod.swap := by
  induction frames generalizing count i with
  | nil => rfl
  | cons frame frames ih =>
      unfold decodeLoop
      by_cases hbound : sizeSub totalFrames r.stIgnoreBottom ≤ count
      · -- the positions after this one are beyond the bound as well
        have hnil : ((frame :: frames).zipIdx count).filter (fun p =>
            r.stIgnoreTop ≤ p.2 ∧ p.2 < sizeSub totalFrames r.stIgnoreBottom) =
              [] := by
          refine List.filter_eq_nil_iff.mpr fun p hp => ?_
          have hle : count ≤ p.2 := List.le_snd_of_mem_zipIdx hp
          simp only [decide_eq_true_eq]
          omega
        rw [if_pos hbound, hnil]
        rfl
      · rw [if_neg hbound, List.zipIdx_cons]
        by_cases htop : count < r.stIgnoreTop
        · rw [if_pos htop, ih, List.filter_cons_of_neg]
          simp only [decide_eq_true_eq]
          omega
        · rw [if_neg htop, ih, List.filter_cons_of_pos]
          · rfl
          · simp only [decide_eq_true_eq]
            omega

/-- A trace is trimmed as it should be unless it is shorter than what is cut off at
its end and longer than what is cut off at its head. -/
theorem decoded_of_le (hsize : r.st.frames.length < r.stIgnoreBottom →
      r.st.frames.length ≤ r.stIgnoreTop) :
    r.decoded = r.kept.zipIdx.map Prod.swap := by
  unfold decoded kept
  rw [decodeLoop_eq]
  congr 3
  refine List.filter_congr fun p hp => ?_
  have hlt : p.2 < r.st.frames.length := List.snd_lt_of_mem_zipIdx hp
  rcases Nat.lt_or_ge r.st.frames.length r.stIgnoreBottom with hshort | hlong
  · have hhead := hsize hshort
    rw [decide_eq_decide]
    omega
  · rw [sizeSub_of_le r.st.length_lt hlong, decide_eq_decide]
    omega

/-- Whatever the length of the trace, `decodeST` prints the frames that are neither
at the head nor at the end, numbered from zero. -/
theorem decodeST_eq (h : PassedToInit strerror r.stIgnoreBottom r.stIgnoreTop) :
    r.decodeST = r.trace := by
  obtain ⟨hbottom, htop⟩ := h.counts
  have hdecoded : r.decoded = r.kept.zipIdx.map Prod.swap :=
    decoded_of_le (by omega)
  unfold decodeST trace
  rw [hdecoded, List.map_map]
  congr 1
  refine List.map_congr_left fun p _ => ?_
  simp [String.append_assoc]

/-- A trace of one frame, of which nothing is left. -/
def shortReport : Report where
  message := "exceptions::Exception"
  st := ⟨[⟨"0x1", "main"⟩], by decide⟩
  stIgnoreBottom := 2
  stIgnoreTop := 1

theorem decodeST_eq_short :
    shortReport.decodeST = shortReport.trace ∧ shortReport.trace = "" := by
  have hpassed : PassedToInit (fun _ => none) 2 1 :=
    .constructor .exception defaultInit List.mem_cons_self
  exact ⟨decodeST_eq hpassed, rfl⟩

end Report

end Exceptions

end ServerStream
