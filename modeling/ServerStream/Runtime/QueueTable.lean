import Mathlib.Algebra.Order.Group.Int
import Mathlib.Data.List.Nodup
import ServerStream.Exceptions.Exception
import ServerStream.Imperative.Triple
import ServerStream.Runtime.MessageQueue

/-!
# The creation of the command queue

`UnixMessageQueue` and `UnixMessageQueueListener<S>::init` over the table of System V
message queues. A table cannot hold two queues with one identifier, nor two with one
key, unless that is `IPC_PRIVATE`. The kernel answers each call of `msgget` for
itself: it may lack memory, it chooses the identifier of a new queue, and it may
report the missing access to a queue before its existence.

`existsQueue` tells the truth and leaves the table as it is. `init` checks no call,
and its queue exists exactly if each of them has been granted (`promise_iff`).
-/

namespace ServerStream

namespace Runtime

open Exceptions Imperative

/-- The key of queues that are never looked up. -/
def ipcPrivate : Int := 0

def IPC_CREAT : ℕ := 512

def IPC_EXCL : ℕ := 1024

/-- The errors of `msgget` and `msgctl`. -/
inductive QueueErrno
  | EEXIST
  | EACCES
  | ENOENT
  | ENOMEM
  | ENOSPC
  | EINVAL
  | EPERM
  deriving DecidableEq, Repr

/-- A queue, and what the process may do with it. -/
structure KernelQueue where
  id : Int
  key : Int
  messages : List Message
  mayAccess : Bool
  mayRemove : Bool
  deriving DecidableEq, Repr

@[ext]
structure QueueTable where
  queues : List KernelQueue
  ids : (queues.map KernelQueue.id).Nodup
  ids_nonneg : ∀ q ∈ queues, 0 ≤ q.id
  keys : ∀ p ∈ queues, ∀ q ∈ queues, p.key = q.key → p.key ≠ ipcPrivate → p = q

namespace QueueTable

def lookup (t : QueueTable) (key : Int) : Option KernelQueue :=
  if key = ipcPrivate then none
  else t.queues.find? fun q => q.key = key

def find (t : QueueTable) (id : Int) : Option KernelQueue :=
  t.queues.find? fun q => q.id = id

theorem lookup_mem {t : QueueTable} {key : Int} {q : KernelQueue}
    (h : t.lookup key = some q) : q ∈ t.queues ∧ q.key = key := by
  obtain ⟨-, hfind⟩ := Option.ite_none_left_eq_some.mp h
  refine ⟨List.mem_of_find?_eq_some hfind, ?_⟩
  simpa using List.find?_some hfind

theorem key_ne_of_lookup {t : QueueTable} {key : Int} (h : t.lookup key = none)
    (hkey : key ≠ ipcPrivate) {q : KernelQueue} (hq : q ∈ t.queues) :
    q.key ≠ key := by
  rw [lookup, if_neg hkey] at h
  simpa using List.find?_eq_none.mp h q hq

theorem lookup_isSome {t : QueueTable} {key : Int} (hkey : key ≠ ipcPrivate) :
    (t.lookup key).isSome ↔ ∃ q ∈ t.queues, q.key = key := by
  constructor
  · intro h
    obtain ⟨q, hq⟩ := Option.isSome_iff_exists.mp h
    exact ⟨q, lookup_mem hq⟩
  · rintro ⟨q, hmem, rfl⟩
    by_contra hnone
    have hnone : t.lookup q.key = none := by
      simpa using hnone
    exact key_ne_of_lookup hnone hkey hmem rfl

theorem eq_of_id {t : QueueTable} {p q : KernelQueue} (hp : p ∈ t.queues)
    (hq : q ∈ t.queues) (h : p.id = q.id) : p = q :=
  List.inj_on_of_nodup_map t.ids hp hq h

theorem find_of_mem {t : QueueTable} {q : KernelQueue} (hq : q ∈ t.queues) :
    t.find q.id = some q := by
  cases hfind : t.find q.id with
  | none =>
      have hne := List.find?_eq_none.mp hfind q hq
      simp at hne
  | some p =>
      have hid : p.id = q.id := by
        simpa using List.find?_some hfind
      rw [eq_of_id (List.mem_of_find?_eq_some hfind) hq hid]

theorem find_neg (t : QueueTable) {id : Int} (h : id < 0) : t.find id = none := by
  refine List.find?_eq_none.mpr fun q hq => ?_
  have hnonneg := t.ids_nonneg q hq
  simp only [decide_eq_true_eq]
  omega

def empty : QueueTable where
  queues := []
  ids := List.nodup_nil
  ids_nonneg := by simp
  keys := by simp

def single (q : KernelQueue) (h : 0 ≤ q.id) : QueueTable where
  queues := [q]
  ids := List.nodup_singleton _
  ids_nonneg := by simpa using h
  keys := by simp

def insert (t : QueueTable) (q : KernelQueue) (hnonneg : 0 ≤ q.id)
    (hid : ∀ p ∈ t.queues, p.id ≠ q.id) (hkey : t.lookup q.key = none) :
    QueueTable where
  queues := q :: t.queues
  ids := by
    rw [List.map_cons, List.nodup_cons, List.mem_map]
    exact ⟨fun ⟨p, hp, heq⟩ => hid p hp heq, t.ids⟩
  ids_nonneg := List.forall_mem_cons.mpr ⟨hnonneg, t.ids_nonneg⟩
  keys := by
    have hother {p : KernelQueue} (hp : p ∈ t.queues)
        (hprivate : q.key ≠ ipcPrivate) : p.key ≠ q.key :=
      key_ne_of_lookup hkey hprivate hp
    intro p hp r hr hkeys hprivate
    rcases List.mem_cons.mp hp with rfl | hpt
    · rcases List.mem_cons.mp hr with rfl | hrt
      · rfl
      · exact absurd hkeys.symm (hother hrt hprivate)
    · rcases List.mem_cons.mp hr with rfl | hrt
      · exact absurd hkeys (hother hpt (hkeys ▸ hprivate))
      · exact t.keys p hpt r hrt hkeys hprivate

def remove (t : QueueTable) (id : Int) : QueueTable where
  queues := t.queues.filter fun q => q.id ≠ id
  ids := t.ids.sublist (List.filter_sublist.map _)
  ids_nonneg q hq := t.ids_nonneg q (List.mem_filter.mp hq).1
  keys p hp q hq :=
    t.keys p (List.mem_filter.mp hp).1 q (List.mem_filter.mp hq).1

/-- Every identifier is below this one. -/
def nextId (queues : List KernelQueue) : Int :=
  queues.foldr (fun q n => max (q.id + 1) n) 0

theorem nextId_nonneg (queues : List KernelQueue) : 0 ≤ nextId queues := by
  induction queues with
  | nil => exact le_refl 0
  | cons q l ih => exact ih.trans (le_max_right _ _)

theorem id_lt_nextId {queues : List KernelQueue} {q : KernelQueue}
    (hq : q ∈ queues) : q.id < nextId queues := by
  induction queues with
  | nil => cases hq
  | cons p l ih =>
      have hcons : nextId (p :: l) = max (p.id + 1) (nextId l) := rfl
      rcases List.mem_cons.mp hq with rfl | hl
      · omega
      · have hlt := ih hl
        omega

theorem mem_remove {t : QueueTable} {id : Int} {q : KernelQueue} :
    q ∈ (t.remove id).queues ↔ q ∈ t.queues ∧ q.id ≠ id := by
  simp [remove]

theorem remove_insert {t : QueueTable} {q : KernelQueue} {hnonneg : 0 ≤ q.id}
    {hid : ∀ p ∈ t.queues, p.id ≠ q.id} {hkey : t.lookup q.key = none} :
    (t.insert q hnonneg hid hkey).remove q.id = t := by
  refine QueueTable.ext ?_
  have hrest : t.queues.filter (fun p => p.id ≠ q.id) = t.queues :=
    List.filter_eq_self.mpr fun p hp => by simpa using hid p hp
  simpa [remove, insert] using hrest

theorem lookup_remove {t : QueueTable} {key : Int} {q : KernelQueue}
    (h : t.lookup key = some q) (hkey : key ≠ ipcPrivate) :
    (t.remove q.id).lookup key = none := by
  cases hlookup : (t.remove q.id).lookup key with
  | none => rfl
  | some p =>
      obtain ⟨hp, hpkey⟩ := lookup_mem hlookup
      obtain ⟨hq, hqkey⟩ := lookup_mem h
      obtain ⟨hp, hne⟩ := mem_remove.mp hp
      have hkeys : p.key = q.key := hpkey.trans hqkey.symm
      rw [t.keys p hp q hq hkeys (hpkey ▸ hkey)] at hne
      exact absurd rfl hne

end QueueTable

/-- The answers of the kernel, by the number of the call of `msgget`. `capacity` is
the number of queues there may be. -/
structure Kernel where
  capacity : ℕ
  lacksMemory : ℕ → Bool
  deniesFirst : ℕ → Bool
  newId : ℕ → QueueTable → Int
  newId_nonneg : ∀ n t, 0 ≤ newId n t
  newId_ne : ∀ n t, ∀ q ∈ t.queues, q.id ≠ newId n t

/-- A kernel that is never short of memory. Every new queue is numbered after the
others. -/
def Kernel.ample (capacity : ℕ) : Kernel where
  capacity := capacity
  lacksMemory _ := false
  deniesFirst _ := false
  newId _ t := QueueTable.nextId t.queues
  newId_nonneg _ t := QueueTable.nextId_nonneg t.queues
  newId_ne _ _ _ hq := (QueueTable.id_lt_nextId hq).ne

/-- The table with a new queue, which belongs to the process: it may use the queue
and remove it. -/
def Kernel.create (k : Kernel) (n : ℕ) (t : QueueTable) (key : Int)
    (h : t.lookup key = none) : QueueTable :=
  t.insert ⟨k.newId n t, key, [], true, true⟩ (k.newId_nonneg n t) (k.newId_ne n t) h

/-- What the calls act on. -/
structure KernelState where
  table : QueueTable
  errno : Option QueueErrno
  calls : ℕ

/-- The functions of `UnixMessageQueue`, of which none throws. -/
abbrev QueueMethod := EStateM Exception KernelState

namespace UnixMessageQueue

def fail (e : QueueErrno) : QueueMethod Int := do
  modify fun s => { s with errno := some e }
  pure (-1)

/-- `msgget`; the errors of an exclusive call for a key that is taken come in either
order. -/
def msgget (k : Kernel) (key : Int) (flags : ℕ) : QueueMethod Int := do
  let s ← get
  modify fun s => { s with calls := s.calls + 1 }
  match hlookup : s.table.lookup key with
  | some q =>
      if flags &&& IPC_CREAT ≠ 0 ∧ flags &&& IPC_EXCL ≠ 0 then
        fail (if k.deniesFirst s.calls then .EACCES else .EEXIST)
      else if q.mayAccess then pure q.id
      else fail .EACCES
  | none =>
      if key ≠ ipcPrivate ∧ flags &&& IPC_CREAT = 0 then fail .ENOENT
      else if k.lacksMemory s.calls then fail .ENOMEM
      else if k.capacity ≤ s.table.queues.length then fail .ENOSPC
      else do
        modify fun t => { t with table := k.create s.calls s.table key hlookup }
        pure (k.newId s.calls s.table)

/-- `msgctl` with `IPC_RMID`. -/
def msgctl (msqId : Int) : QueueMethod Int := do
  let s ← get
  match s.table.find msqId with
  | none => fail .EINVAL
  | some q =>
      if q.mayRemove then do
        modify fun s => { s with table := s.table.remove msqId }
        pure 0
      else fail .EPERM

/-- `ftok` on the inode and the device of a file, which may not be there; a `key_t`
has 32 bits. -/
def fileToKey (file : Option (ℕ × ℕ)) (projId : ℕ) : Int :=
  match file with
  | none => -1
  | some (ino, dev) =>
      ((projId % 256 * 16777216 + dev % 256 * 65536 + ino % 65536 : ℕ) : Int).bmod
        4294967296

def getQueue (k : Kernel) (key : Int) (flags : ℕ) : QueueMethod Int :=
  msgget k key flags

def createQueue (k : Kernel) (key : Int) (flags : ℕ) : QueueMethod Int :=
  getQueue k key (flags ||| IPC_CREAT ||| IPC_EXCL)

def removeQueue (msqId : Int) : QueueMethod Unit := do
  let _ ← msgctl msqId

def existsQueue (k : Kernel) (key : Int) : QueueMethod Bool := do
  let msqId ← createQueue k key 0
  if msqId = -1 then do
    let s ← get
    if s.errno = some .EEXIST then pure true
    else if s.errno = some .EACCES then pure true
    else pure false
  else do
    removeQueue msqId
    pure false

end UnixMessageQueue

open UnixMessageQueue

/-- The fields of a `UnixMessageQueueListener` that name its queue. -/
structure UnixMessageQueueListener where
  key : Int
  msqId : Int
  deriving DecidableEq, Repr

namespace UnixMessageQueueListener

/-- `UnixMessageQueueListener<S>::init`, which is all that the constructors do;
`438` is `0666`. -/
def init (k : Kernel) (key : Int) (recreate : Bool) :
    QueueMethod UnixMessageQueueListener := do
  if ← existsQueue k key then do
    let msqId ← getQueue k key 0
    if recreate then do
      removeQueue msqId
      let msqId ← createQueue k key 438
      pure ⟨key, msqId⟩
    else pure ⟨key, msqId⟩
  else do
    let msqId ← createQueue k key 438
    pure ⟨key, msqId⟩

/-- The letter of the listener keeps the key of a file from being `IPC_PRIVATE`. -/
theorem fileToKey_ne (file : Option (ℕ × ℕ)) {projId : ℕ} (h : projId % 256 ≠ 0) :
    fileToKey file projId ≠ ipcPrivate := by
  have hbits (ino dev : ℕ) :
      ((projId % 256 * 16777216 + dev % 256 * 65536 + ino % 65536 : ℕ) : Int).bmod
        4294967296 ≠ 0 := by
    rw [Int.bmod_def]
    split
    · omega
    · omega
  rcases file with - | ⟨ino, dev⟩
  · exact Int.neg_ne_zero.mpr (by decide)
  · exact hbits ino dev

/-- The constructor that is given a file. -/
def ofFile (k : Kernel) (file : Option (ℕ × ℕ)) (recreate : Bool) :
    QueueMethod UnixMessageQueueListener :=
  init k (fileToKey file 'G'.toNat) recreate

end UnixMessageQueueListener

/-- There is memory for a queue and room for it among `count` others. -/
def Kernel.Grants (k : Kernel) (n count : ℕ) : Prop :=
  k.lacksMemory n = false ∧ count < k.capacity

/-- Before call `n` of `msgget`, the table is `t`. -/
def KernelState.At (t : QueueTable) (n : ℕ) (s : KernelState) : Prop :=
  s.table = t ∧ s.calls = n

namespace UnixMessageQueue

open KernelState

variable {k : Kernel} {t : QueueTable} {n : ℕ} {key : Int} {q : KernelQueue}
  {E : Exception → KernelState → Prop}

theorem createQueue_flags (flags : ℕ) :
    (flags ||| IPC_CREAT ||| IPC_EXCL) &&& IPC_CREAT ≠ 0 ∧
      (flags ||| IPC_CREAT ||| IPC_EXCL) &&& IPC_EXCL ≠ 0 := by
  have hcreat : IPC_CREAT.testBit 9 := by decide
  have hexcl : IPC_EXCL.testBit 10 := by decide
  constructor
  · intro h
    have hbit := congrArg (fun m : ℕ => m.testBit 9) h
    simp [Nat.testBit_or, Nat.testBit_and, hcreat] at hbit
  · intro h
    have hbit := congrArg (fun m : ℕ => m.testBit 10) h
    simp [Nat.testBit_or, Nat.testBit_and, hexcl] at hbit

theorem fail_spec {e : QueueErrno} :
    Triple (At t n) (fail e)
      (fun id s => id = -1 ∧ s.errno = some e ∧ At t n s) E :=
  .seq (Q := fun s => s.errno = some e ∧ At t n s) (.modify fun _ h => ⟨rfl, h⟩)
    (.pure fun _ h => ⟨rfl, h⟩)

/-- `msgget` counts its call, and acts on the state before it. -/
theorem msgget_called {m : KernelState → QueueMethod Int}
    {R : Int → KernelState → Prop}
    (h : ∀ s, s.table = t → s.calls = n → Triple (At t (n + 1)) (m s) R E) :
    Triple (At t n)
      (do
        let s ← get
        modify fun s => { s with calls := s.calls + 1 }
        m s) R E := by
  refine .get fun s hs => .seq (Q := At t (n + 1)) (.modify ?_) (h s hs.1 hs.2)
  rintro _ rfl
  exact ⟨hs.1, congrArg (· + 1) hs.2⟩

theorem createQueue_taken (h : t.lookup key = some q) (flags : ℕ) :
    Triple (At t n) (createQueue k key flags)
      (fun id s => id = -1 ∧
        (s.errno = some .EEXIST ∨ s.errno = some .EACCES) ∧ At t (n + 1) s) E := by
  refine msgget_called fun s hs _ => ?_
  subst hs
  split
  · refine .ite (fun _ => ?_) fun hnot => absurd (createQueue_flags flags) hnot
    refine fail_spec.post fun id u hu => ⟨hu.1, ?_, hu.2.2⟩
    cases hdenies : k.deniesFirst s.calls with
    | true => exact .inr (by simpa [hdenies] using hu.2.1)
    | false => exact .inl (by simpa [hdenies] using hu.2.1)
  · next hnone => cases hnone.symm.trans h

theorem createQueue_granted (h : t.lookup key = none)
    (hgrants : k.Grants n t.queues.length) (flags : ℕ) :
    Triple (At t n) (createQueue k key flags)
      (fun id s => id = k.newId n t ∧ At (k.create n t key h) (n + 1) s) E := by
  refine msgget_called fun s hs hn => ?_
  subst hs hn
  split
  · next p hp => cases hp.symm.trans h
  · refine .ite (fun hflag => absurd hflag.2 (createQueue_flags flags).1) fun _ => ?_
    refine .ite (fun hlacks => ?_) fun _ => .ite (fun hfull => ?_) fun _ => ?_
    · rw [hgrants.1] at hlacks
      exact absurd hlacks (by decide)
    · exact absurd hgrants.2 (not_lt.mpr hfull)
    · exact .seq (Q := At (k.create s.calls s.table key h) (s.calls + 1))
        (.modify fun u hu => ⟨rfl, hu.2⟩) (.pure fun _ hu => ⟨rfl, hu⟩)

theorem createQueue_refused (h : t.lookup key = none)
    (hgrants : ¬ k.Grants n t.queues.length) (flags : ℕ) :
    Triple (At t n) (createQueue k key flags)
      (fun id s => id = -1 ∧
        (s.errno = some .ENOMEM ∨ s.errno = some .ENOSPC) ∧ At t (n + 1) s) E := by
  refine msgget_called fun s hs hn => ?_
  subst hs hn
  split
  · next p hp => cases hp.symm.trans h
  · refine .ite (fun hflag => absurd hflag.2 (createQueue_flags flags).1) fun _ => ?_
    refine .ite (fun _ => ?_) fun hlacks => .ite (fun _ => ?_) fun hfull => ?_
    · exact fail_spec.post fun id u hu => ⟨hu.1, .inl hu.2.1, hu.2.2⟩
    · exact fail_spec.post fun id u hu => ⟨hu.1, .inr hu.2.1, hu.2.2⟩
    · exact absurd ⟨by simpa using hlacks, not_le.mp hfull⟩ hgrants

theorem getQueue_spec (h : t.lookup key = some q) :
    Triple (At t n) (getQueue k key 0)
      (fun id s => id = (if q.mayAccess then q.id else -1) ∧ At t (n + 1) s) E := by
  refine msgget_called fun s hs _ => ?_
  subst hs
  split
  · next p hp =>
      cases hp.symm.trans h
      refine .ite (fun hflags => absurd hflags (by decide)) fun _ => ?_
      refine .ite (fun haccess => .pure fun _ hu => ?_) fun hnot => ?_
      · exact ⟨(if_pos haccess).symm, hu⟩
      · exact fail_spec.post fun id u hu => ⟨hu.1.trans (if_neg hnot).symm, hu.2.2⟩
  · next hnone => cases hnone.symm.trans h

theorem removeQueue_removes (hq : q ∈ t.queues) (hremove : q.mayRemove = true) :
    Triple (At t n) (removeQueue q.id) (fun _ => At (t.remove q.id) n) E := by
  refine .bind (Q := fun _ => At (t.remove q.id) n) (.get fun s hs => ?_)
    fun _ => .pure fun _ h => h
  obtain ⟨rfl, rfl⟩ := hs
  rw [QueueTable.find_of_mem hq]
  refine .ite (fun _ => ?_) fun hnot => absurd hremove hnot
  refine .seq (Q := At (s.table.remove q.id) s.calls) (.modify ?_) (.pure fun _ h => h)
  rintro _ rfl
  exact ⟨rfl, rfl⟩

theorem removeQueue_fails {id : Int}
    (h : ∀ q, t.find id = some q → q.mayRemove = false) :
    Triple (At t n) (removeQueue id) (fun _ => At t n) E := by
  refine .bind (Q := fun _ => At t n) (.get fun s hs => ?_)
    fun _ => .pure fun _ h => h
  obtain ⟨rfl, rfl⟩ := hs
  have hfail {e : QueueErrno} : Triple (fun u => u = s) (fail e)
      (fun _ => At s.table s.calls) E := by
    refine fail_spec.conseq ?_ (fun _ _ hu => hu.2.2) fun _ _ hu => hu
    rintro _ rfl
    exact ⟨rfl, rfl⟩
  cases hfind : s.table.find id with
  | none => exact hfail
  | some q =>
      refine .ite (fun hremove => ?_) fun _ => hfail
      rw [h q hfind] at hremove
      exact absurd hremove (by decide)

theorem removeQueue_created (h : t.lookup key = none) :
    Triple (At (k.create n t key h) (n + 1)) (removeQueue (k.newId n t))
      (fun _ => At t (n + 1)) E := by
  have hremoved : (k.create n t key h).remove (k.newId n t) = t :=
    QueueTable.remove_insert (q := ⟨k.newId n t, key, [], true, true⟩)
  have hspec := removeQueue_removes (t := k.create n t key h) (n := n + 1) (E := E)
    (List.mem_cons_self ..) rfl
  rwa [hremoved] at hspec

/-- `existsQueue` tells whether there is a queue with the key, and leaves the table
alone. -/
theorem existsQueue_spec :
    Triple (At t n) (existsQueue k key)
      (fun b s => b = (t.lookup key).isSome ∧ At t (n + 1) s) E := by
  cases h : t.lookup key with
  | some q =>
      refine .bind (createQueue_taken h 0) fun id => .fact ?_
      rintro rfl
      refine .ite (fun _ => .get fun s hs => ?_) fun hne => absurd rfl hne
      have hend : Triple (fun u => u = s) (pure true : QueueMethod Bool)
          (fun b u => b = true ∧ At t (n + 1) u) E := by
        refine .pure ?_
        rintro _ rfl
        exact ⟨rfl, hs.2⟩
      refine .ite (fun _ => hend) fun hexist => .ite (fun _ => hend) fun haccess => ?_
      exact absurd hs.1 (not_or.mpr ⟨hexist, haccess⟩)
  | none =>
      by_cases hgrants : k.Grants n t.queues.length
      · refine .bind (createQueue_granted h hgrants 0) fun id => .fact ?_
        rintro rfl
        have hnonneg := k.newId_nonneg n t
        refine .ite (fun hfailed => absurd hfailed (by omega)) fun _ => ?_
        exact (removeQueue_created h).seq (.pure fun _ hu => ⟨rfl, hu⟩)
      · refine .bind (createQueue_refused h hgrants 0) fun id => .fact ?_
        rintro rfl
        refine .ite (fun _ => .get fun s hs => ?_) fun hne => absurd rfl hne
        have hother {e : QueueErrno} (hmem : e ≠ .ENOMEM) (hspc : e ≠ .ENOSPC) :
            s.errno ≠ some e := by
          rcases hs.1 with herrno | herrno
          · rw [herrno]
            simpa using hmem.symm
          · rw [herrno]
            simpa using hspc.symm
        have hexist : s.errno ≠ some .EEXIST := hother (by decide) (by decide)
        have haccess : s.errno ≠ some .EACCES := hother (by decide) (by decide)
        refine .ite (fun heq => absurd heq hexist) fun _ => ?_
        refine .ite (fun heq => absurd heq haccess) fun _ => ?_
        refine .pure ?_
        rintro _ rfl
        exact ⟨rfl, hs.2⟩

end UnixMessageQueue

namespace UnixMessageQueueListener

open KernelState

/-- `msqId` names a queue with the key in `t'`, which has been made from `t`: an
empty one if it had to be made, and else the old one. The other queues are as they
were. -/
structure Usable (t : QueueTable) (key : Int) (recreate : Bool) (msqId : Int)
    (t' : QueueTable) : Prop where
  named : ∃ q ∈ t'.queues, q.id = msqId ∧ q.key = key ∧
    ((recreate = true ∨ ∀ p ∈ t.queues, p.key ≠ key) → q.messages = []) ∧
    (recreate = false → (∃ p ∈ t.queues, p.key = key) → q ∈ t.queues)
  others : ∀ p, p.key ≠ key → (p ∈ t'.queues ↔ p ∈ t.queues)

/-- What the constructor promises: a queue that it can use. -/
def Promise (k : Kernel) (s : KernelState) (key : Int) (recreate : Bool) : Prop :=
  ∀ l s', init k key recreate s = .ok l s' →
    Usable s.table key recreate l.msqId s'.table

/-- A new queue is granted if there is none with the key. Otherwise the process may
use the old one and, if it is to be made again, remove it, and then a new queue is
granted. -/
structure Granted (k : Kernel) (t : QueueTable) (n : ℕ) (key : Int)
    (recreate : Bool) : Prop where
  free : (∀ q ∈ t.queues, q.key ≠ key) → k.Grants (n + 1) t.queues.length
  taken : ∀ q ∈ t.queues, q.key = key → q.mayAccess = true ∧
    (recreate = true → q.mayRemove = true ∧
      k.Grants (n + 2) (t.remove q.id).queues.length)

variable {k : Kernel} {t t' : QueueTable} {n : ℕ} {key : Int} {recreate : Bool}
  {q : KernelQueue} {E : Exception → KernelState → Prop}

theorem not_usable : ¬ Usable t key recreate (-1) t' := by
  rintro ⟨⟨q, hq, hid, -⟩, -⟩
  have hnonneg := t'.ids_nonneg q hq
  omega

theorem usable_created {u : QueueTable} (hu : u.lookup key = none)
    (hempty : recreate = true ∨ ∀ p ∈ t.queues, p.key ≠ key)
    (hrest : ∀ p, p.key ≠ key → (p ∈ u.queues ↔ p ∈ t.queues)) :
    Usable t key recreate (k.newId n u) (k.create n u key hu) := by
  refine ⟨⟨⟨k.newId n u, key, [], true, true⟩, List.mem_cons_self .., rfl, rfl,
    fun _ => rfl, ?_⟩, fun p hp => ?_⟩
  · rintro rfl ⟨p, hp, hpkey⟩
    exact absurd hpkey (hempty.resolve_left (by decide) p hp)
  · rw [← hrest p hp]
    constructor
    · intro hmem
      rcases List.mem_cons.mp hmem with rfl | hmem
      · exact absurd rfl hp
      · exact hmem
    · exact List.mem_cons_of_mem _

theorem granted_free (hkey : key ≠ ipcPrivate) (h : t.lookup key = none) :
    Granted k t n key recreate ↔ k.Grants (n + 1) t.queues.length := by
  have hfree : ∀ q ∈ t.queues, q.key ≠ key :=
    fun _ => QueueTable.key_ne_of_lookup h hkey
  constructor
  · exact fun hgranted => hgranted.free hfree
  · refine fun hgrants => ⟨fun _ => hgrants, fun q hq hqkey => ?_⟩
    exact absurd hqkey (hfree q hq)

theorem granted_taken (hkey : key ≠ ipcPrivate) (h : t.lookup key = some q) :
    Granted k t n key recreate ↔ q.mayAccess = true ∧
      (recreate = true → q.mayRemove = true ∧
        k.Grants (n + 2) (t.remove q.id).queues.length) := by
  obtain ⟨hq, hqkey⟩ := QueueTable.lookup_mem h
  constructor
  · exact fun hgranted => hgranted.taken q hq hqkey
  · refine fun hgrants => ⟨fun hfree => ?_, fun p hp hpkey => ?_⟩
    · exact absurd hqkey (hfree q hq)
    · have heq : p = q := t.keys p hp q hq (hpkey.trans hqkey.symm) (hpkey ▸ hkey)
      rwa [heq]

/-- The new queue is made, or there is none. -/
theorem createQueue_spec {u : QueueTable} (hu : u.lookup key = none)
    (hempty : recreate = true ∨ ∀ p ∈ t.queues, p.key ≠ key)
    (hrest : ∀ p, p.key ≠ key → (p ∈ u.queues ↔ p ∈ t.queues)) (flags : ℕ) :
    Triple (At u n) (createQueue k key flags)
      (fun id s => Usable t key recreate id s.table ↔ k.Grants n u.queues.length)
      E := by
  by_cases hgrants : k.Grants n u.queues.length
  · refine (createQueue_granted hu hgrants flags).post ?_
    rintro _ s ⟨rfl, htable, -⟩
    rw [htable]
    exact iff_of_true (usable_created hu hempty hrest) hgrants
  · refine (createQueue_refused hu hgrants flags).post ?_
    rintro _ s ⟨rfl, -, -⟩
    exact iff_of_false not_usable hgrants

theorem init_free (hkey : key ≠ ipcPrivate) (h : t.lookup key = none) :
    Triple (At t n) (init k key recreate)
      (fun l s => Usable t key recreate l.msqId s.table ↔
        Granted k t n key recreate) E := by
  refine .bind existsQueue_spec fun b => .fact ?_
  rintro rfl
  refine .ite (fun hsome => ?_) fun _ => ?_
  · rw [h] at hsome
    exact absurd hsome (by decide)
  · rw [granted_free hkey h]
    exact .bind (createQueue_spec h (.inr fun _ => QueueTable.key_ne_of_lookup h hkey)
      (fun _ _ => .rfl) 438) fun id => .pure fun _ hs => hs

/-- What `init` does with the old queue when it is to be made again. -/
def remake (k : Kernel) (key msqId : Int) : QueueMethod UnixMessageQueueListener := do
  removeQueue msqId
  let msqId ← createQueue k key 438
  pure ⟨key, msqId⟩

theorem remake_removes (hkey : key ≠ ipcPrivate) (h : t.lookup key = some q)
    (hremove : q.mayRemove = true) :
    Triple (At t n) (remake k key q.id)
      (fun l s => Usable t key true l.msqId s.table ↔
        k.Grants n (t.remove q.id).queues.length) E := by
  obtain ⟨hq, hqkey⟩ := QueueTable.lookup_mem h
  have hrest (p : KernelQueue) (hp : p.key ≠ key) :
      p ∈ (t.remove q.id).queues ↔ p ∈ t.queues := by
    rw [QueueTable.mem_remove]
    refine and_iff_left_of_imp fun hmem hid => hp ?_
    rwa [QueueTable.eq_of_id hmem hq hid]
  refine .seq (removeQueue_removes hq hremove) ?_
  exact .bind (createQueue_spec (QueueTable.lookup_remove h hkey) (.inl rfl) hrest 438)
    fun id => .pure fun _ hs => hs

theorem remake_fails (h : t.lookup key = some q) {id : Int}
    (hid : ∀ p, t.find id = some p → p.mayRemove = false) :
    Triple (At t n) (remake k key id)
      (fun l s => ¬ Usable t key true l.msqId s.table) E := by
  refine .seq (removeQueue_fails hid) ?_
  refine .bind (createQueue_taken h 438) fun id => .fact ?_
  rintro rfl
  exact .pure fun _ _ => not_usable

theorem remake_spec (hkey : key ≠ ipcPrivate) (h : t.lookup key = some q) :
    Triple (At t n) (remake k key (if q.mayAccess then q.id else -1))
      (fun l s => Usable t key true l.msqId s.table ↔
        q.mayAccess = true ∧ q.mayRemove = true ∧
          k.Grants n (t.remove q.id).queues.length) E := by
  cases haccess : q.mayAccess with
  | true =>
      cases hremove : q.mayRemove with
      | true =>
          refine (remake_removes hkey h hremove).post fun l s hs => ?_
          simpa using hs
      | false =>
          refine (remake_fails h fun p hp => ?_).post fun l s hs => ?_
          · cases (QueueTable.find_of_mem (QueueTable.lookup_mem h).1).symm.trans hp
            exact hremove
          · exact iff_of_false hs (by simp)
  | false =>
      refine (remake_fails h fun p hp => ?_).post fun l s hs => ?_
      · cases (QueueTable.find_neg t (by simp)).symm.trans hp
      · exact iff_of_false hs (by simp)

theorem usable_kept (h : t.lookup key = some q) : Usable t key false q.id t := by
  obtain ⟨hq, hqkey⟩ := QueueTable.lookup_mem h
  refine ⟨⟨q, hq, rfl, hqkey, ?_, fun _ _ => hq⟩, fun _ _ => .rfl⟩
  rintro (hrecreate | hfree)
  · cases hrecreate
  · exact absurd hqkey (hfree q hq)

theorem init_taken (hkey : key ≠ ipcPrivate) (h : t.lookup key = some q) :
    Triple (At t n) (init k key recreate)
      (fun l s => Usable t key recreate l.msqId s.table ↔
        Granted k t n key recreate) E := by
  rw [granted_taken hkey h]
  refine .bind existsQueue_spec fun b => .fact ?_
  rintro rfl
  refine .ite (fun _ => ?_) fun hnone => ?_
  · refine .bind (getQueue_spec h) fun id => .fact ?_
    rintro rfl
    cases recreate with
    | true => exact (remake_spec hkey h).post fun _ _ hs => by simpa using hs
    | false =>
        refine .pure fun s hs => ?_
        rw [hs.1]
        cases haccess : q.mayAccess with
        | true => exact iff_of_true (usable_kept h) ⟨rfl, by rintro ⟨⟩⟩
        | false => exact iff_of_false not_usable (by simp)
  · rw [h] at hnone
    exact absurd rfl hnone

theorem init_spec (hkey : key ≠ ipcPrivate) :
    Triple (At t n) (init k key recreate)
      (fun l s => Usable t key recreate l.msqId s.table ↔
        Granted k t n key recreate) E := by
  cases h : t.lookup key with
  | none => exact init_free hkey h
  | some q => exact init_taken hkey h

/-- The key of a file is never `IPC_PRIVATE`. -/
theorem ofFile_spec (file : Option (ℕ × ℕ)) :
    Triple (At t n) (ofFile k file recreate)
      (fun l s => Usable t (fileToKey file 'G'.toNat) recreate l.msqId s.table ↔
        Granted k t n (fileToKey file 'G'.toNat) recreate) E :=
  init_spec (fileToKey_ne file (by decide))

/-- `existsQueue` leaves the table as it is and tells whether there is a queue with
the key, and a listener has a usable queue exactly if the kernel has granted what it
asks for. -/
theorem promise_iff (k : Kernel) (s : KernelState) {key : Int} (recreate : Bool)
    (hkey : key ≠ ipcPrivate) :
    (∃ s', existsQueue k key s =
        .ok (decide (∃ q ∈ s.table.queues, q.key = key)) s' ∧
      s'.table = s.table) ∧
    (Promise k s key recreate ↔ Granted k s.table s.calls key recreate) := by
  have hs : At s.table s.calls s := ⟨rfl, rfl⟩
  constructor
  · obtain ⟨b, u, hrun, hb, htable, -⟩ := existsQueue_spec.returns hs
    refine ⟨u, ?_, htable⟩
    have htrue : b = decide (∃ q ∈ s.table.queues, q.key = key) := by
      rw [hb, Bool.eq_iff_iff, decide_eq_true_iff]
      exact QueueTable.lookup_isSome hkey
    rw [hrun, htrue]
  · obtain ⟨l, u, hrun, husable⟩ := (init_spec hkey).returns hs
    rw [← husable, Promise, hrun]
    constructor
    · exact fun hpromise => hpromise l u rfl
    · rintro hl l' u' ⟨⟩
      exact hl

/-- A listener in an empty table. -/
theorem promise_empty :
    Promise (.ample 16) ⟨.empty, none, 0⟩ 7 true := by
  refine (promise_iff (.ample 16) ⟨.empty, none, 0⟩ true (by decide)).2.mpr ⟨?_, ?_⟩
  · exact fun _ => ⟨rfl, by decide⟩
  · rintro q ⟨⟩

/-- The queue of another user, which `init` is to make again. -/
theorem not_promise : ¬ ∀ k s key recreate, key ≠ ipcPrivate →
    (∃ s', existsQueue k key s =
        .ok (decide (∃ q ∈ s.table.queues, q.key = key)) s' ∧
      s'.table = s.table) ∧
    Promise k s key recreate := by
  intro hall
  have hpromise := (hall (.ample 16)
    ⟨.single ⟨3, 7, [], true, false⟩ (by decide), none, 0⟩ 7 true (by decide)).2
  exact not_usable (hpromise ⟨7, -1⟩ _ rfl)

end UnixMessageQueueListener

end Runtime

end ServerStream
