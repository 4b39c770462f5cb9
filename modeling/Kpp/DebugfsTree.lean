import Kpp.MoveOnlyHandle
import Kpp.StepRun

/-!
# debugfs directories and files owned by Dentry handles

`Dentry` is a move-only handle whose destructor and move assignment call
`debugfs_remove_recursive`, and `create_dir` and `create_file` return a
handle of their own for each node. The kernel's removal takes the whole
subtree, handles of descendants included or not.
-/

namespace Kpp.DebugfsTree

open MoveOnlyHandle StepRun

variable {H N : Type*}

/-- What a node was created with; `N` stands for names. -/
inductive Entry (N : Type*) where
  | dir (name : N)
  | file (name : N) (mode : UInt16) (data fops : ℕ)

/-- Only directories may have children. -/
def Entry.isDir : Entry N → Bool
  | .dir _ => true
  | .file _ _ _ _ => false

/-- debugfs nodes in order of creation. -/
structure Nodes (N : Type*) where
  /-- Number of nodes created so far; the next one gets this index. -/
  next : ℕ
  /-- Creation arguments of each node. -/
  entry : ℕ → Option (Entry N)
  /-- Each node followed by its ancestors. -/
  lineage : ℕ → List ℕ
  /-- How often each node was removed. -/
  removals : ℕ → ℕ
  /-- A call was made on a node that was already removed. -/
  stale : Bool

/-- Kernel `debugfs_create_dir` and `debugfs_create_file`: a new node below
the parent, or at the root of the file system for a null parent. -/
def debugfsCreate (entry : Entry N) (parent : Option ℕ) (w : Nodes N) : ℕ×Nodes N :=
  (w.next,
    {w with
      next := w.next+1
      entry := Function.update w.entry w.next (some entry)
      lineage := Function.update w.lineage w.next (w.next::(parent.map w.lineage).getD [])
      stale := w.stale || decide (∃ p∈parent,0<w.removals p)})

/-- Kernel `debugfs_remove_recursive`: the node goes, and with it everything
below it that is still there. -/
def debugfsRemoveRecursive (dentry : ℕ) (w : Nodes N) : Nodes N :=
  {w with
    removals := fun n =>
      if dentry∈w.lineage n ∧ (w.removals n=0 ∨ n=dentry) then w.removals n+1 else w.removals n
    stale := w.stale || decide (0<w.removals dentry)}

/-- `Dentry` has the node pointer `dentry_` as its only field. -/
abbrev Dentry := Owner ℕ

/-- `debugfs::create_dir`. -/
def createDir (name : N) (parent : Dentry) (w : Nodes N) : Dentry×Nodes N :=
  let created := debugfsCreate (.dir name) parent.held w
  (⟨some created.1⟩,created.2)

/-- `debugfs::create_file`. -/
def createFile (name : N) (mode : UInt16) (parent : Dentry) (data fops : ℕ) (w : Nodes N) :
    Dentry×Nodes N :=
  let created := debugfsCreate (.file name mode data fops) parent.held w
  (⟨some created.1⟩,created.2)

/-- Operations on handles; `d = create_dir(name, d)` is a creation into a
temporary, a move assignment and the temporary's destruction. -/
inductive Action (H N : Type*) where
  | wrapNull (h : H)
  | createDir (h : H) (name : N) (parent : H)
  | createFile (h : H) (name : N) (mode : UInt16) (parent : H) (data fops : ℕ)
  | moveConstruct (dst src : H)
  | moveAssign (dst src : H)
  | destroy (h : H)

/-- Handles in storage cells over the nodes. -/
abbrev State (H N : Type*) := Table H ℕ (Nodes N)

/-- The kernel creates below directories and at the root. -/
def acceptsChild (w : Nodes N) (parent : Dentry) : Bool :=
  match parent.held with
  | none => true
  | some p => ((w.entry p).map Entry.isDir).getD false

section Steps
variable [DecidableEq H]

/-- A successful creation through the handle of the parent, constructing the
returned handle in a raw cell. -/
def createWith (create : Dentry → Nodes N → Dentry×Nodes N) (h parent : H) (t : State H N) :
    Option (State H N) :=
  match t.slots parent with
  | some d =>
    if acceptsChild t.world d=true then
      let created := create d t.world
      construct h created.1 {t with world := created.2}
    else none
  | none => none

/-- One operation. -/
def step (t : State H N) : Action H N → Option (State H N)
  | .wrapNull h => construct h ⟨none⟩ t
  | .createDir h name parent => createWith (createDir name) h parent t
  | .createFile h name mode parent data fops =>
    createWith (fun d => createFile name mode d data fops) h parent t
  | .moveConstruct dst src => moveConstruct dst src t
  | .moveAssign dst src => moveAssign debugfsRemoveRecursive dst src t
  | .destroy h => destroy debugfsRemoveRecursive h t

end Steps

/-- No other live handle refers to the node of this cell or to one below it. -/
def Alone (t : State H N) (h : H) : Prop :=
  ∀ n,t.slots h=some ⟨some n⟩ → ∀ h' m,h'≠h → t.slots h'=some ⟨some m⟩ → n∉t.world.lineage m

/-- A handle that is destroyed or overwritten is the last one of its subtree. -/
def ChildrenFirst (t : State H N) : Action H N → Prop
  | .moveAssign dst src => dst=src ∨ Alone t dst
  | .destroy h => Alone t h
  | _ => True

/-- No node is removed twice, no live handle refers to a removed node, and
once all handles are destroyed every node was removed. -/
structure Sound (t : State H N) : Prop where
  /-- No removal, and no creation, was asked of a removed node. -/
  fresh : t.world.stale=false
  /-- Each node is removed at most once. -/
  once : ∀ n,t.world.removals n≤1
  /-- A handle that tests true refers to a node that is there. -/
  valid : ∀ h n,t.slots h=some ⟨some n⟩ → t.world.removals n=0
  /-- After the last handle each created node is removed exactly once. -/
  finished : (∀ h,t.slots h=none) → ∀ n,n<t.world.next → t.world.removals n=1

/-- No handle and no node yet. -/
def start : State H N := ⟨fun _ => none,⟨0,fun _ => none,fun _ => [],fun _ => 0,false⟩⟩

/-- A removal that takes another handle's node leaves that handle on a
removed node. -/
theorem removals_below {t : State H N} {n m : ℕ} (hmem : n∈t.world.lineage m) :
    (debugfsRemoveRecursive n t.world).removals m≠0 := by
  by_cases hz : t.world.removals m=0
  · simp only [debugfsRemoveRecursive,hmem,hz,true_or,and_self,if_true]
    omega
  · simp only [debugfsRemoveRecursive]
    split <;> omega

/-- The guard holds wherever the next state is sound. -/
theorem step_exact [DecidableEq H] {t t' : State H N} {a : Action H N} (h : step t a=some t')
    (hsound : Sound t') : ChildrenFirst t a := by
  cases a with
  | wrapNull cell => trivial
  | createDir cell name parent => trivial
  | createFile cell name mode parent data fops => trivial
  | moveConstruct dst src => trivial
  | moveAssign dst src =>
    obtain ⟨this,other,hd,hs,⟨he,_⟩|⟨hne,rfl⟩⟩ := moveAssign_cases h
    · exact Or.inl he
    · refine Or.inr (fun n hn h' m hne' hm hmem => ?_)
      rw [hd] at hn
      cases hn
      -- the other handle is the moved one or stays in its cell
      by_cases hsrc : h'=src
      · subst hsrc
        rw [hs] at hm
        cases hm
        refine removals_below hmem (hsound.valid dst m ?_)
        simp only [Function.update_of_ne hne,Function.update_self]
      · refine removals_below hmem (hsound.valid h' m ?_)
        simp only [Function.update_of_ne hsrc,Function.update_of_ne hne']
        exact hm
  | destroy cell =>
    obtain ⟨this,hs,rfl⟩ := destroy_cases h
    intro n hn h' m hne hm hmem
    rw [hs] at hn
    cases hn
    refine removals_below hmem (hsound.valid h' m ?_)
    simp only [Function.update_of_ne hne]
    exact hm

section Ledger
variable [Fintype H]

/-- Every node that is there has exactly one handle. -/
structure Ledger (t : State H N) : Prop where
  /-- No call was made on a removed node. -/
  fresh : t.world.stale=false
  /-- Removed or held, but not both and not twice. -/
  one : ∀ n,t.world.removals n+holders t.slots n=if n<t.world.next then 1 else 0
  /-- A node is in its own subtree. -/
  self : ∀ n,n<t.world.next → n∈t.world.lineage n
  /-- Nodes not yet created are below nothing. -/
  later : ∀ n,t.world.next≤n → t.world.lineage n=[]

variable {t t' : State H N}

/-- The ledger gives soundness of the state. -/
theorem Ledger.sound (hl : Ledger t) : Sound t := by
  have hone := hl.one
  constructor
  · exact hl.fresh
  · intro n
    have hn := hone n
    split at hn <;> omega
  · intro h n hs
    have hn := hone n
    have hpos := holders_pos hs
    split at hn <;> omega
  · intro hraw n hlt
    have hn := hone n
    rw [holders_raw hraw n,if_pos hlt] at hn
    exact hn

/-- A held node was created and is there. -/
theorem Ledger.held (hl : Ledger t) {h : H} {n : ℕ} (hs : t.slots h=some ⟨some n⟩) :
    n<t.world.next ∧ t.world.removals n=0 := by
  have hn := hl.one n
  have hpos := holders_pos hs
  split at hn
  · exact ⟨by assumption,by omega⟩
  · omega

/-- A node that is there has a cell that holds it. -/
theorem Ledger.holder (hl : Ledger t) {n : ℕ} (hlt : n<t.world.next)
    (hthere : t.world.removals n=0) : ∃ h,t.slots h=some ⟨some n⟩ := by
  have hn := hl.one n
  rw [hthere,if_pos hlt,Nat.zero_add] at hn
  by_contra hnone
  push Not at hnone
  have hzero := (PointUpdate.countCells_eq_zero (Holds n)).mpr hnone
  unfold holders at hn
  omega

/-- Removing the node of a cell that is alone in its subtree removes exactly
this node. -/
theorem Ledger.removals_alone (hl : Ledger t) {h : H} {n : ℕ} (hs : t.slots h=some ⟨some n⟩)
    (halone : Alone t h) (m : ℕ) :
    (debugfsRemoveRecursive n t.world).removals m=t.world.removals m+if m=n then 1 else 0 := by
  have hn := hl.held hs
  by_cases he : m=n
  · subst he
    have hself := hl.self m hn.1
    simp only [debugfsRemoveRecursive,hself,or_true,and_self,if_true]
  · have hkeep : ¬(n∈t.world.lineage m ∧ (t.world.removals m=0 ∨ m=n)) := by
      rintro ⟨hmem,hthere|heq⟩
      · have hlt : m<t.world.next := by
          by_contra hge
          rw [hl.later m (not_lt.mp hge)] at hmem
          exact absurd hmem List.not_mem_nil
        obtain ⟨h',hs'⟩ := hl.holder hlt hthere
        have hne : h'≠h := by
          rintro rfl
          rw [hs] at hs'
          cases hs'
          exact he rfl
        exact halone n hs h' m hne hs' hmem
      · exact he heq
    simp only [debugfsRemoveRecursive,if_neg hkeep,if_neg he,Nat.add_zero]

/-- Holder counts that stay as they were keep the ledger. -/
theorem Ledger.congr (hl : Ledger t) {slots : H → Option Dentry}
    (hown : ∀ n,holders slots n=holders t.slots n) : Ledger ⟨slots,t.world⟩ :=
  ⟨hl.fresh,fun n => (hown n).symm ▸ hl.one n,hl.self,hl.later⟩

/-- A handle in a cell that is alone, destroyed together with its place in
the holder counts, keeps the ledger. -/
theorem Ledger.release (hl : Ledger t) {h : H} {this : Dentry} (hs : t.slots h=some this)
    (halone : Alone t h) {slots : H → Option Dentry}
    (hown : ∀ n,holders slots n+(if Holds n (some this) then 1 else 0)=holders t.slots n) :
    Ledger ⟨slots,destruct debugfsRemoveRecursive this t.world⟩ := by
  cases this with
  | mk held =>
    cases held with
    | none =>
      have hsame : ∀ n,holders slots n=holders t.slots n := by
        intro n
        have hn := hown n
        simpa [Holds] using hn
      exact ⟨hl.fresh,fun n => (hsame n).symm ▸ hl.one n,hl.self,hl.later⟩
    | some d =>
      have hd := hl.held hs
      have hstale : ¬0<t.world.removals d := by omega
      refine ⟨?_,fun n => ?_,hl.self,hl.later⟩
      · simp only [destruct,debugfsRemoveRecursive,hl.fresh,hstale,decide_false,Bool.or_self]
      · have hn := hl.one n
        have hw := hown n
        have hr := hl.removals_alone hs halone n
        have hholds : Holds n (some (⟨some d⟩ : Dentry)) ↔ n=d := by
          simp only [Holds,Option.some.injEq,Owner.mk.injEq,eq_comm]
        rw [if_congr hholds rfl rfl] at hw
        change (debugfsRemoveRecursive d t.world).removals n+holders slots n=
          if n<t.world.next then 1 else 0
        omega

variable [DecidableEq H]

/-- A creation below a node that is there adds one node with one handle. -/
theorem Ledger.create (hl : Ledger t) {h : H} (hraw : t.slots h=none) (parent : Dentry)
    (hparent : ∀ p,parent.held=some p → t.world.removals p=0) (entry : Entry N) :
    Ledger ⟨Function.update t.slots h (some ⟨some t.world.next⟩),
      (debugfsCreate entry parent.held t.world).2⟩ := by
  have hstale : ¬∃ p∈parent.held,0<t.world.removals p := by
    rintro ⟨p,hp,hpos⟩
    have hz := hparent p hp
    omega
  refine ⟨?_,fun n => ?_,fun n hlt => ?_,fun n hge => ?_⟩
  · simp only [debugfsCreate,hl.fresh,hstale,decide_false,Bool.or_self]
  · have hn := hl.one n
    have hc := holders_construct hraw ⟨some t.world.next⟩ n
    simp only [Option.some.injEq] at hc
    change t.world.removals n+holders (Function.update t.slots h (some ⟨some t.world.next⟩)) n=
      if n<t.world.next+1 then 1 else 0
    split_ifs at hn hc ⊢ <;> omega
  · change n<t.world.next+1 at hlt
    by_cases he : n=t.world.next
    · subst he
      simp only [debugfsCreate,Function.update_self,List.mem_cons,true_or]
    · simp only [debugfsCreate,Function.update_of_ne he]
      exact hl.self n (by omega)
  · change t.world.next+1≤n at hge
    have he : n≠t.world.next := by omega
    simp only [debugfsCreate,Function.update_of_ne he]
    exact hl.later n (by omega)

/-- A permitted creation is the kernel's creation below the parent's node. -/
theorem createWith_ledger (hl : Ledger t) {h parent : H}
    {create : Dentry → Nodes N → Dentry×Nodes N} {entry : Entry N}
    (hcreate : ∀ d w,create d w=
      (⟨some (debugfsCreate entry d.held w).1⟩,(debugfsCreate entry d.held w).2))
    (hstep : createWith create h parent t=some t') : Ledger t' := by
  cases hp : t.slots parent with
  | none => simp only [createWith,hp,reduceCtorEq] at hstep
  | some d =>
    simp only [createWith,hp,Option.ite_none_right_eq_some,hcreate] at hstep
    have hcell := construct_cases hstep.2
    rw [hcell.2]
    refine hl.create hcell.1 d (fun p hd => ?_) entry
    cases d with
    | mk held =>
      cases hd
      exact (hl.held hp).2

/-- Operations that let children's handles go first keep the ledger. -/
theorem step_ledger {a : Action H N} (hl : Ledger t) (hg : ChildrenFirst t a)
    (h : step t a=some t') : Ledger t' := by
  cases a with
  | wrapNull cell =>
    obtain ⟨hraw,rfl⟩ := construct_cases h
    refine hl.congr (fun n => ?_)
    rw [holders_construct hraw]
    simp only [reduceCtorEq,if_false,Nat.add_zero]
  | createDir cell name parent =>
    have hcreate : ∀ d w,createDir name d w=(⟨some (debugfsCreate (.dir name) d.held w).1⟩,
        (debugfsCreate (.dir name) d.held w).2) := fun _ _ => rfl
    exact createWith_ledger hl hcreate h
  | createFile cell name mode parent data fops =>
    have hcreate : ∀ d w,createFile name mode d data fops w=
        (⟨some (debugfsCreate (.file name mode data fops) d.held w).1⟩,
          (debugfsCreate (.file name mode data fops) d.held w).2) := fun _ _ => rfl
    exact createWith_ledger hl hcreate h
  | moveConstruct dst src =>
    obtain ⟨other,hraw,hs,hne,rfl⟩ := moveConstruct_cases h
    refine hl.congr (fun n => ?_)
    have hn := holders_move hne hs n
    rw [hraw,if_neg nofun] at hn
    exact hn
  | moveAssign dst src =>
    obtain ⟨this,other,hd,hs,⟨_,rfl⟩|⟨hne,rfl⟩⟩ := moveAssign_cases h
    · exact hl
    · refine hl.release hd (hg.resolve_left hne) (fun n => ?_)
      have hn := holders_move hne hs n
      rw [hd] at hn
      exact hn
  | destroy cell =>
    obtain ⟨this,hs,rfl⟩ := destroy_cases h
    refine hl.release hs hg (fun n => ?_)
    have hn := holders_destroy t.slots cell n
    rw [hs] at hn
    exact hn

/-- debugfs handle trees. A run of handle operations is sound in every state
exactly when each handle it destroys or overwrites is the last one of its
subtree. -/
theorem handle_tree_sound_iff (actions : List (Action H N)) :
    Along step Sound start actions ↔ Guarded step ChildrenFirst start actions := by
  have hraw : ∀ n,holders (start : State H N).slots n=0 := fun n => holders_raw (fun _ => rfl) n
  have hstart : Ledger (start : State H N) := by
    refine ⟨rfl,fun n => ?_,fun n hlt => absurd hlt (Nat.not_lt_zero n),fun n _ => rfl⟩
    rw [hraw n]
    rfl
  exact along_iff_guarded (I := Ledger) (fun hl => hl.sound)
    (fun hl hg h => step_ledger hl hg h) (fun _ h hsound => step_exact h hsound) hstart

end Ledger

/-- `d = create_dir("b", d)` with a directory `d` below the root: the move
assignment removes the new child with its parent, and `d` refers to it. -/
theorem nested_reassignment_dangles :
    ∃ t,run step (start : State (Fin 3) ℕ)
        [.wrapNull 0,.createDir 1 7 0,.createDir 2 8 1,.moveAssign 1 2]=some t ∧
      t.slots 1=some ⟨some 1⟩ ∧ t.world.removals 1=1 ∧ ¬Sound t := by
  refine ⟨_,rfl,rfl,rfl,fun hsound => ?_⟩
  have hthere := hsound.valid 1 1 rfl
  exact absurd hthere (by decide)

end Kpp.DebugfsTree
