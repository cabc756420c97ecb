import ServerStream.Exceptions.StackTrace
import ServerStream.Linked.Memory
import ServerStream.Transition.System

/-!
# The chains of exceptions

An exception in memory is a cell with its members, linked to the exception that it
nests. `Objects` is a program that builds exceptions with the constructors, copies
them and destroys them, in any order; a temporary that is passed as `prev` is
built and destroyed by actions of its own.

`nodes` and `chain` of an `Object` are not members of the class: the nodes that were
allocated for it, and what it was built from. `deleted` is the history of the nodes
whose destructor has run.
-/

namespace ServerStream

namespace Exceptions

open Linked Transition

namespace Exception

/-- The copy constructor: the new exception, and the memory. There is none when the
exception, or one that it nests, has been deleted; `fuel` bounds the nesting. -/
def copyConstruct : ℕ → Memory Report → ℕ → Option (ℕ × Memory Report)
  | 0, _, _ => none
  | fuel + 1, m, e =>
      match m.cell e with
      | none => none
      | some ⟨report, none⟩ => some (m.size, m.alloc ⟨report, none⟩)
      | some ⟨report, some prev⟩ =>
          (copyConstruct fuel m prev).map fun (copy, m') =>
            (m'.size, m'.alloc ⟨report, some copy⟩)

/-- The destructor: the nodes that are deleted, and the memory. -/
def destruct : ℕ → Memory Report → ℕ → Option (List ℕ × Memory Report)
  | 0, _, _ => none
  | fuel + 1, m, e =>
      match m.cell e with
      | none => none
      | some ⟨_, none⟩ => some ([e], m.free e)
      | some ⟨_, some prev⟩ =>
          (destruct fuel m prev).map fun (deleted, m') =>
            (deleted ++ [e], m'.free e)

/-- What `what` prints of one exception. -/
def entry (i : ℕ) (r : Report) : String :=
  " #" ++ toString i ++ ": " ++ r.message ++ "\n" ++ "     Stacktrace:\n" ++
    r.decodeST ++ "\n"

def header : String := "\n ********** EXCEPTION STACK **********\n\n"

def whatLoop (m : Memory Report) : ℕ → ℕ → Option ℕ → Option String
  | _, _, none => some ""
  | 0, _, some _ => none
  | fuel + 1, i, some prev =>
      match m.cell prev with
      | none => none
      | some e => (whatLoop m fuel (i + 1) e.next).map fun w => entry i e.data ++ w

def what (m : Memory Report) (e : ℕ) : Option String :=
  match m.cell e with
  | none => none
  | some this =>
      (whatLoop m m.size 1 this.next).map fun w => header ++ entry 0 this.data ++ w

/-- The text that is asked for: every exception of the chain once, outermost first,
under its index from zero, with its message and its own stack trace. -/
def report (chain : List Report) : String :=
  "\n ********** EXCEPTION STACK **********\n\n" ++
    String.join (chain.zipIdx.map fun p =>
      " #" ++ toString p.2 ++ ": " ++ p.1.message ++ "\n     Stacktrace:\n" ++
        p.1.trace ++ "\n")

variable {m : Memory Report} {next : Option ℕ} {e : ℕ} {nodes : List ℕ}
  {chain : List Report}

/-- The copy is a chain of new nodes with the same contents. -/
theorem copyConstruct_spec {fuel : ℕ} (h : Chain m (some e) nodes chain)
    (hfuel : chain.length ≤ fuel) :
    ∃ copy m', copyConstruct fuel m e = some (copy, m') ∧ m.Extends m' ∧
      Chain m' (some copy) (m.since m') chain := by
  induction fuel generalizing e nodes chain with
  | zero =>
      cases h
      exact absurd hfuel (by simp)
  | succ fuel ih =>
      cases h with
      | @cons x next _ nodes xs hcell hs =>
          unfold copyConstruct
          rw [hcell]
          cases next with
          | none =>
              cases hs
              have hext : m.Extends (m.alloc ⟨x, none⟩) := .alloc (.refl m) _
              refine ⟨m.size, _, rfl, hext, ?_⟩
              rw [Memory.since_alloc (.refl m), Memory.since_self]
              exact Chain.nil.alloc_cons x
          | some prev =>
              obtain ⟨copy, m', hcopy, hext, hchain⟩ :=
                ih hs (by simpa using hfuel)
              refine ⟨m'.size, m'.alloc ⟨x, some copy⟩, ?_, hext.alloc _, ?_⟩
              · dsimp only
                rw [hcopy]
                rfl
              · rw [Memory.since_alloc hext]
                exact hchain.alloc_cons x

/-- The destructor deletes the nodes of the chain, the innermost first, and no
other. -/
theorem destruct_spec {fuel : ℕ} (h : Chain m (some e) nodes chain)
    (hfuel : chain.length ≤ fuel) :
    ∃ m', destruct fuel m e = some (nodes.reverse, m') ∧ m'.size = m.size ∧
      (∀ a ∈ nodes, m'.cell a = none) ∧ ∀ a ∉ nodes, m'.cell a = m.cell a := by
  induction fuel generalizing e nodes chain with
  | zero =>
      cases h
      exact absurd hfuel (by simp)
  | succ fuel ih =>
      cases h with
      | @cons x next _ nodes xs hcell hs =>
          unfold destruct
          rw [hcell]
          cases next with
          | none =>
              cases hs
              refine ⟨m.free e, rfl, rfl, ?_, ?_⟩
              · intro a ha
                rw [List.mem_singleton.mp ha, Memory.free_cell_self]
              · intro a ha
                exact Memory.free_cell_of_ne fun h => ha (by simp [h])
          | some prev =>
              obtain ⟨m', hdestruct, hsize, hfreed, hkept⟩ :=
                ih hs (by simpa using hfuel)
              refine ⟨m'.free e, ?_, hsize, ?_, ?_⟩
              · dsimp only
                rw [hdestruct, List.reverse_cons]
                rfl
              · intro a ha
                by_cases hae : a = e
                · rw [hae, Memory.free_cell_self]
                · rw [Memory.free_cell_of_ne hae]
                  exact hfreed a ((List.mem_cons.mp ha).resolve_left hae)
              · intro a ha
                obtain ⟨hae, hnodes⟩ := not_or.mp fun h => ha (List.mem_cons.mpr h)
                rw [Memory.free_cell_of_ne hae, hkept a hnodes]

/-- The members of the exception were set by one of the constructors. -/
def Built (strerror : Int → Option String) (r : Report) : Prop :=
  PassedToInit strerror r.stIgnoreBottom r.stIgnoreTop

end Exception

structure Object where
  address : ℕ
  nodes : List ℕ
  chain : List Report

structure Objects where
  memory : Memory Report
  objects : List Object
  deleted : List ℕ

/-- A statement on exceptions; `st` is the stack trace where it stands. -/
inductive ObjectAction
  | construct (c : Constructor) (st : StackTrace)
  | nest (c : NestingConstructor) (st : StackTrace) (prev : ℕ)
  | copy (e : ℕ)
  | destroy (e : ℕ)

theorem Constructor.inits_ne_nil (strerror : Int → Option String)
    (c : Constructor) : c.inits strerror ≠ [] := by
  cases c <;> exact List.cons_ne_nil _ _

theorem NestingConstructor.inits_ne_nil (strerror : Int → Option String)
    (c : NestingConstructor) : c.inits strerror ≠ [] := by
  cases c <;> exact List.cons_ne_nil _ _

/-- The members after the last call of `init`, which sets them all. -/
def Init.report (i : Init) (st : StackTrace) : Report where
  message := i.message
  st := st
  stIgnoreBottom := i.stIgnoreBottom
  stIgnoreTop := i.stIgnoreTop

def Constructor.report (strerror : Int → Option String) (c : Constructor)
    (st : StackTrace) : Report :=
  ((c.inits strerror).getLast (c.inits_ne_nil strerror)).report st

def NestingConstructor.report (strerror : Int → Option String)
    (c : NestingConstructor) (st : StackTrace) : Report :=
  ((c.inits strerror).getLast (c.inits_ne_nil strerror)).report st

namespace Objects

def find (s : Objects) (e : ℕ) : Option Object :=
  s.objects.find? fun o => o.address = e

/-- One more exception, for which the memory has grown. -/
def add (s : Objects) (address : ℕ) (memory : Memory Report)
    (chain : List Report) : Objects where
  memory := memory
  objects := ⟨address, s.memory.since memory, chain⟩ :: s.objects
  deleted := s.deleted

def step (strerror : Int → Option String) (s : Objects) :
    ObjectAction → Option Objects
  | .construct c st =>
      let report := c.report strerror st
      some (s.add s.memory.size (s.memory.alloc ⟨report, none⟩) [report])
  | .nest c st prev => do
      let o ← s.find prev
      let (copy, m) ← Exception.copyConstruct s.memory.size s.memory prev
      let report := c.report strerror st
      some (s.add m.size (m.alloc ⟨report, some copy⟩) (report :: o.chain))
  | .copy e => do
      let o ← s.find e
      let (copy, m) ← Exception.copyConstruct s.memory.size s.memory e
      some (s.add copy m o.chain)
  | .destroy e => do
      let _ ← s.find e
      let (deleted, m) ← Exception.destruct s.memory.size s.memory e
      some {
        memory := m
        objects := s.objects.eraseP fun o => o.address = e
        deleted := s.deleted ++ deleted }

/-- A program that begins without exceptions. -/
def system (strerror : Int → Option String) : System Objects ObjectAction where
  init s := s = ⟨Memory.empty, [], []⟩
  step := step strerror

/-- The nodes of the exceptions that the program holds. -/
def nodes (s : Objects) : List ℕ := s.objects.flatMap Object.nodes

variable {strerror : Int → Option String} {s t : Objects} {o : Object} {e : ℕ}
  {m : Memory Report} {chain : List Report}

theorem find_some (h : s.find e = some o) : o ∈ s.objects ∧ o.address = e :=
  ⟨List.mem_of_find?_eq_some h, by simpa using List.find?_some h⟩

theorem find_of_mem (h : o ∈ s.objects) :
    ∃ o', s.find o.address = some o' := by
  refine Option.isSome_iff_exists.mp (List.find?_isSome.mpr ⟨o, h, ?_⟩)
  exact decide_eq_true rfl

/-- Every exception is the chain that it was built from, and every node that was
ever allocated belongs to one exception or has been deleted once. -/
structure Owned (s : Objects) : Prop where
  chain : ∀ o ∈ s.objects, Chain s.memory (some o.address) o.nodes o.chain
  nodes : (s.nodes ++ s.deleted).Perm (List.range s.memory.size)
  freed : ∀ a ∈ s.deleted, s.memory.cell a = none

theorem Owned.nodup (h : Owned s) : (s.nodes ++ s.deleted).Nodup :=
  h.nodes.nodup_iff.mpr List.nodup_range

theorem Owned.length_le (h : Owned s) (ho : o ∈ s.objects) :
    o.chain.length ≤ s.memory.size := by
  have hchain := h.chain o ho
  rw [← hchain.length]
  refine length_le_size ?_ hchain.lt_size
  exact (List.nodup_flatMap.mp h.nodup.of_append_left).1 o ho

theorem Owned.add (h : Owned s) (hext : s.memory.Extends m)
    (hchain : Chain m (some e) (s.memory.since m) chain) :
    Owned (s.add e m chain) := by
  refine ⟨List.forall_mem_cons.mpr ⟨hchain, fun o ho => ?_⟩, ?_, fun a ha => ?_⟩
  · exact (h.chain o ho).mono hext
  · show (((s.memory.since m) ++ s.nodes) ++ s.deleted).Perm _
    rw [List.append_assoc]
    exact (h.nodes.append_left _).trans (Memory.range_size hext)
  · have hlt : a < s.memory.size := by
      have hmem := h.nodes.mem_iff.mp (List.mem_append_right _ ha)
      exact List.mem_range.mp hmem
    exact (hext.2 a hlt).trans (h.freed a ha)

/-- Every exception that the program holds can be copied. -/
theorem Owned.copyConstruct (h : Owned s) (hfind : s.find e = some o) :
    ∃ copy m, Exception.copyConstruct s.memory.size s.memory e = some (copy, m) ∧
      s.memory.Extends m ∧ Chain m (some copy) (s.memory.since m) o.chain := by
  obtain ⟨ho, rfl⟩ := find_some hfind
  exact Exception.copyConstruct_spec (h.chain o ho) (h.length_le ho)

theorem Owned.copy (strerror : Int → Option String) (h : Owned s)
    (hfind : s.find e = some o) :
    ∃ copy m, step strerror s (.copy e) = some (s.add copy m o.chain) ∧
      Owned (s.add copy m o.chain) := by
  obtain ⟨copy, m, hcopy, hext, hchain⟩ := h.copyConstruct hfind
  refine ⟨copy, m, ?_, h.add hext hchain⟩
  simp [step, hfind, hcopy]

theorem Owned.construct (h : Owned s) (c : Constructor) (st : StackTrace) :
    Owned (s.add s.memory.size
      (s.memory.alloc ⟨c.report strerror st, none⟩) [c.report strerror st]) := by
  refine h.add (.alloc (.refl _) _) ?_
  rw [Memory.since_alloc (.refl _), Memory.since_self]
  exact Chain.nil.alloc_cons _

theorem Owned.nest (h : Owned s) (c : NestingConstructor) (st : StackTrace)
    (hfind : s.find e = some o) :
    ∃ address m, step strerror s (.nest c st e) =
        some (s.add address m (c.report strerror st :: o.chain)) ∧
      Owned (s.add address m (c.report strerror st :: o.chain)) := by
  obtain ⟨copy, m, hcopy, hext, hchain⟩ := h.copyConstruct hfind
  refine ⟨m.size, m.alloc ⟨c.report strerror st, some copy⟩, ?_, ?_⟩
  · simp [step, hfind, hcopy]
  · refine h.add (hext.alloc _) ?_
    rw [Memory.since_alloc hext]
    exact hchain.alloc_cons _

theorem eraseP_of_find? {α : Type} {p : α → Bool} {l : List α} {a : α}
    (h : l.find? p = some a) :
    ∃ before after, l = before ++ a :: after ∧ l.eraseP p = before ++ after := by
  obtain ⟨ha, before, after, rfl, hbefore⟩ := List.find?_eq_some_iff_append.mp h
  refine ⟨before, after, rfl, ?_⟩
  have hnone : ∀ b ∈ before, ¬ p b = true := by simpa using hbefore
  rw [List.eraseP_append_right _ hnone, List.eraseP_cons_of_pos ha]

/-- Every exception that the program holds can be destroyed, and the nodes of the
others stay. -/
theorem Owned.destroy (strerror : Int → Option String) (h : Owned s)
    (hfind : s.find e = some o) :
    ∃ t, step strerror s (.destroy e) = some t ∧ Owned t ∧
      t.objects = s.objects.eraseP (fun o => o.address = e) ∧
      t.memory.size = s.memory.size := by
  obtain ⟨ho, rfl⟩ := find_some hfind
  obtain ⟨m, hdestruct, hsize, hfreed, hkept⟩ :=
    Exception.destruct_spec (h.chain o ho) (h.length_le ho)
  obtain ⟨before, after, hobjects, herase⟩ := eraseP_of_find? hfind
  have hnodes : s.nodes.Perm ((before ++ after).flatMap Object.nodes ++ o.nodes) := by
    unfold Objects.nodes
    rw [hobjects, List.flatMap_append, List.flatMap_cons, List.flatMap_append,
      List.append_assoc]
    exact List.perm_append_comm.append_left _
  let t : Objects := {
    memory := m
    objects := s.objects.eraseP fun o' => o'.address = o.address
    deleted := s.deleted ++ o.nodes.reverse }
  have hstep : step strerror s (.destroy o.address) = some t := by
    simp [step, hfind, hdestruct, t]
  refine ⟨t, hstep, ?_, rfl, hsize⟩
  have hall : ((before ++ after).flatMap Object.nodes ++
      (o.nodes ++ s.deleted)).Perm (List.range s.memory.size) := by
    rw [← List.append_assoc]
    exact (hnodes.symm.append_right _).trans h.nodes
  have hnodup := hall.nodup_iff.mpr List.nodup_range
  refine ⟨fun o' ho' => ?_, ?_, fun a ha => ?_⟩
  · have ho' : o' ∈ before ++ after := herase ▸ ho'
    refine (h.chain o' ?_).congr fun a ha => hkept a fun hao => ?_
    · rw [hobjects]
      rcases List.mem_append.mp ho' with hmem | hmem
      · exact List.mem_append_left _ hmem
      · exact List.mem_append_right _ (List.mem_cons_of_mem _ hmem)
    · exact (List.nodup_append.mp hnodup).2.2 a
        (List.mem_flatMap.mpr ⟨o', ho', ha⟩) a (List.mem_append_left _ hao) rfl
  · show ((s.objects.eraseP _).flatMap Object.nodes ++
      (s.deleted ++ o.nodes.reverse)).Perm (List.range m.size)
    rw [herase, hsize]
    refine List.Perm.trans (.append_left _ ?_) hall
    exact List.perm_append_comm.trans ((List.reverse_perm _).append_right _)
  · rcases List.mem_append.mp ha with hdeleted | hao
    · by_cases hnode : a ∈ o.nodes
      · exact hfreed a hnode
      · exact (hkept a hnode).trans (h.freed a hdeleted)
    · exact hfreed a (List.mem_reverse.mp hao)

theorem owned_invariant : (system strerror).Invariant Owned where
  init s hs := by
    subst hs
    exact ⟨fun _ ho => absurd ho List.not_mem_nil, .refl _, fun _ _ => rfl⟩
  step s a t hs h := by
    cases a with
    | construct c st => exact Option.some.inj h ▸ hs.construct c st
    | nest c st prev =>
        obtain ⟨o, hfind, -⟩ := Option.bind_eq_some_iff.mp h
        obtain ⟨address, m, hstep, ht⟩ := hs.nest c st hfind
        exact Option.some.inj (hstep.symm.trans h) ▸ ht
    | copy e =>
        obtain ⟨o, hfind, -⟩ := Option.bind_eq_some_iff.mp h
        obtain ⟨copy, m, hstep, ht⟩ := hs.copy strerror hfind
        exact Option.some.inj (hstep.symm.trans h) ▸ ht
    | destroy e =>
        obtain ⟨o, hfind, -⟩ := Option.bind_eq_some_iff.mp h
        obtain ⟨u, hstep, hu, -, -⟩ := hs.destroy strerror hfind
        exact Option.some.inj (hstep.symm.trans h) ▸ hu

/-- What the program holds was built by the constructors. -/
def Built (strerror : Int → Option String) (s : Objects) : Prop :=
  ∀ o ∈ s.objects, ∀ r ∈ o.chain, Exception.Built strerror r

theorem Built.add (h : Built strerror s)
    (hchain : ∀ r ∈ chain, Exception.Built strerror r) :
    Built strerror (s.add e m chain) :=
  List.forall_mem_cons.mpr ⟨hchain, h⟩

theorem Built.find (h : Built strerror s) (hfind : s.find e = some o) :
    ∀ r ∈ o.chain, Exception.Built strerror r :=
  h o (find_some hfind).1

/-- `AvErrorException(-2, ReturnValueException("avio_open", -2))`, and a copy. -/
def thrown : List ObjectAction :=
  [.construct (.returnValue "avio_open" (-2)) ⟨[], by decide⟩,
    .nest (.avError (-2)) ⟨[], by decide⟩ 0, .destroy 0, .copy 2]

end Objects

end Exceptions

end ServerStream
