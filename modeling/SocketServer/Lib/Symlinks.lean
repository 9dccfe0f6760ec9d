import Mathlib.Data.List.AList
import Mathlib.Tactic.SplitIfs

/-!
# Resolving paths with symbolic links

Directory entries with symbolic links, absolute or relative, and the resolution of a path through them. `walk` goes
down a path one component at a time and may follow a number of links that is given (beyond it, resolution fails).

* `walk_append` : the rest of a path is resolved where its beginning ends, with the links that are left;
* `walk_dirs`, `walk_plain` : a path with no links on it leads to what it is called;
* `Within.walk`, `Better.holds` : what resolves, resolves with more entries;
* `DirsWithin.walk` : what resolves to a directory, does so without the files;
* `LinkTree.without` : a path resolves without passing through some entries if it does with these entries taken away;
* `Files` : the system calls that change the entries, and what each of them makes of the tree.
-/

universe u v

/-- A component of a path. -/
inductive Component (ν : Type u) where
  | name (x : ν)
  /-- `..`. -/
  | up
  deriving DecidableEq, Repr

/-- A directory entry. -/
inductive Node (ν : Type u) (κ : Type v) where
  | dir
  | file (content : κ) (executable : Bool)
  | link (absolute : Bool) (target : List (Component ν))
  deriving DecidableEq, Repr

/-- The entries by their real path, last name first; the root is `[]`. -/
abbrev LinkTree (ν : Type u) (κ : Type v) := List ν → Option (Node ν κ)

variable {ν : Type u} {κ : Type v}

namespace LinkTree

/-- The entries but those in `gone`. -/
def without (tree : LinkTree ν κ) (gone : List ν → Bool) : LinkTree ν κ := fun p => if gone p then none else tree p

/-- The entries but the one at `p`. -/
def erase [DecidableEq ν] (tree : LinkTree ν κ) (p : List ν) : LinkTree ν κ := without tree fun q => decide (q = p)

/-- The entries with `node` at `p`. -/
def put [DecidableEq ν] (tree : LinkTree ν κ) (p : List ν) (node : Node ν κ) : LinkTree ν κ :=
  fun q => if q = p then some node else tree q

def isDir (tree : LinkTree ν κ) (p : List ν) : Bool :=
  match tree p with
  | some .dir => true
  | _ => false

def isLink (tree : LinkTree ν κ) (p : List ν) : Bool :=
  match tree p with
  | some (.link _ _) => true
  | _ => false

/-- Resolves components from the directory `cur`, where links are resolved by `follow`. -/
def walkFrom (tree : LinkTree ν κ) (follow : List ν → List (Component ν) → Option (List ν × Nat)) (links : Nat) :
    List ν → List (Component ν) → Option (List ν × Nat)
  | cur, [] => some (cur, links)
  | cur, c :: todo =>
    if isDir tree cur then
      match c with
      | .up => walkFrom tree follow links cur.tail todo
      | .name x =>
        match tree (x :: cur) with
        | none => none
        | some (.link absolute target) => follow (if absolute then [] else cur) (target ++ todo)
        | some _ => walkFrom tree follow links (x :: cur) todo
    else none

/-- The real path that the components lead to from `cur`, and how many of `links` links are left. -/
def walk (tree : LinkTree ν κ) : Nat → List ν → List (Component ν) → Option (List ν × Nat)
  | 0 => walkFrom tree (fun _ _ => none) 0
  | links + 1 => walkFrom tree (walk tree links) (links + 1)

/-- The file that a path names: its real path, its content, and whether it is executable. -/
def fileAt (tree : LinkTree ν κ) (links : Nat) (p : List (Component ν)) : Option (List ν × κ × Bool) :=
  match walk tree links [] p with
  | none => none
  | some (q, _) =>
    match tree q with
    | some (.file content executable) => some (q, content, executable)
    | _ => none

/-- The entry `x` of the directory that `p` names: a link at its end is not followed. -/
def entryAt (tree : LinkTree ν κ) (links : Nat) (p : List (Component ν)) (x : ν) : Option (List ν) :=
  match walk tree links [] p with
  | none => none
  | some (d, _) => if isDir tree d then some (x :: d) else none

/-- The path `p` resolves to a directory that holds an executable file `x`. -/
def Holds (tree : LinkTree ν κ) (links : Nat) (p : List (Component ν)) (x : ν) : Prop :=
  ∃ d left, walk tree links [] p = some (d, left) ∧ tree d = some .dir ∧
    ∃ q left' content, walk tree left d [.name x] = some (q, left') ∧ tree q = some (.file content true)

variable {tree tree' : LinkTree ν κ} {links : Nat} {cur : List ν} {todo : List (Component ν)}

theorem isDir_iff {p : List ν} : isDir tree p = true ↔ tree p = some .dir := by
  unfold isDir
  rcases tree p with _ | _ | _ | _ <;> simp

theorem isLink_iff {p : List ν} :
    isLink tree p = true ↔ ∃ absolute target, tree p = some (.link absolute target) := by
  unfold isLink
  rcases tree p with _ | _ | _ | _ <;> simp

/-! ### One component -/

theorem walk_nil (tree : LinkTree ν κ) (links : Nat) (cur : List ν) : walk tree links cur [] = some (cur, links) := by
  cases links <;> rfl

theorem walk_unique {d d' : List ν} {left left' : Nat} (h : walk tree links cur todo = some (d, left))
    (h' : walk tree links cur todo = some (d', left')) : d = d' ∧ left = left' :=
  Prod.mk.inj (Option.some.inj (h.symm.trans h'))

theorem walk_of_not_dir {c : Component ν} (h : ¬ isDir tree cur = true) : walk tree links cur (c :: todo) = none := by
  cases links <;> exact if_neg h

theorem walk_dir {c : Component ν} {r : List ν × Nat} (h : walk tree links cur (c :: todo) = some r) :
    tree cur = some .dir := by
  by_cases hdir : isDir tree cur = true
  · exact isDir_iff.mp hdir
  · rw [walk_of_not_dir hdir] at h
    cases h

theorem walk_link {x : ν} {absolute : Bool} {target : List (Component ν)} (hdir : tree cur = some .dir)
    (hlink : tree (x :: cur) = some (.link absolute target)) :
    walk tree (links + 1) cur (.name x :: todo) = walk tree links (if absolute then [] else cur) (target ++ todo) := by
  show walkFrom tree (walk tree links) (links + 1) cur (.name x :: todo) = _
  rw [walkFrom, if_pos (isDir_iff.mpr hdir), hlink]

theorem walk_entry {x : ν} {node : Node ν κ} (hdir : tree cur = some .dir) (hnode : tree (x :: cur) = some node)
    (hlink : isLink tree (x :: cur) = false) :
    walk tree links cur (.name x :: todo) = walk tree links (x :: cur) todo := by
  rcases node with _ | _ | ⟨absolute, target⟩
  · cases links <;> simp only [walk, walkFrom, if_pos (isDir_iff.mpr hdir), hnode]
  · cases links <;> simp only [walk, walkFrom, if_pos (isDir_iff.mpr hdir), hnode]
  · rw [isLink_iff.mpr ⟨absolute, target, hnode⟩] at hlink
    cases hlink

theorem walk_of_not_link {x : ν} {r : List ν × Nat} (h : walk tree links cur (.name x :: todo) = some r)
    (hlink : isLink tree (x :: cur) = false) :
    (∃ node, tree (x :: cur) = some node) ∧ walk tree links (x :: cur) todo = some r := by
  have hdir := walk_dir h
  cases hnode : tree (x :: cur) with
  | none => cases links <;> simp [walk, walkFrom, isDir_iff.mpr hdir, hnode] at h
  | some node =>
    rw [walk_entry hdir hnode hlink] at h
    exact ⟨⟨node, rfl⟩, h⟩

/-! ### Paths one after the other -/

theorem walkFrom_append {follow : List ν → List (Component ν) → Option (List ν × Nat)} (b : List (Component ν))
    (hwalk : ∀ cur, walkFrom tree follow links cur b = walk tree links cur b)
    (hfollow : ∀ cur a, follow cur (a ++ b) = (follow cur a).bind fun r => walk tree r.2 r.1 b) (cur : List ν)
    (a : List (Component ν)) :
    walkFrom tree follow links cur (a ++ b) =
      (walkFrom tree follow links cur a).bind fun r => walk tree r.2 r.1 b := by
  induction a generalizing cur with
  | nil => exact hwalk cur
  | cons c a ih =>
    rw [List.cons_append]
    rcases c with x | _
    · rw [walkFrom, walkFrom]
      split_ifs
      · rcases hnode : tree (x :: cur) with _ | _ | _ | ⟨absolute, target⟩
        · rfl
        · exact ih (x :: cur)
        · exact ih (x :: cur)
        · show follow _ (target ++ (a ++ b)) = _
          rw [← List.append_assoc]
          exact hfollow _ (target ++ a)
      · rfl
    · rw [walkFrom, walkFrom]
      split_ifs
      · exact ih cur.tail
      · rfl

/-- **The rest of a path** is resolved where its beginning ends, with the links that are left. -/
theorem walk_append (tree : LinkTree ν κ) (links : Nat) (cur : List ν) (a b : List (Component ν)) :
    walk tree links cur (a ++ b) = (walk tree links cur a).bind fun r => walk tree r.2 r.1 b := by
  induction links generalizing cur a with
  | zero => exact walkFrom_append b (fun _ => rfl) (fun _ _ => rfl) cur a
  | succ links ih => exact walkFrom_append b (fun _ => rfl) ih cur a

theorem walk_dirs {q : List ν} (hdirs : ∀ p, p <:+ q → tree p = some .dir) :
    walk tree links [] (q.reverse.map .name) = some (q, links) := by
  induction q with
  | nil => exact walk_nil tree links []
  | cons x q ih =>
    have hq := ih fun p hp => hdirs p (hp.trans (List.suffix_cons x q))
    have hx := hdirs (x :: q) (List.suffix_refl _)
    have hlink : isLink tree (x :: q) = false := by
      unfold isLink
      rw [hx]
    rw [List.reverse_cons, List.map_append, walk_append, hq]
    show walk tree links q [.name x] = _
    rw [walk_entry (hdirs q (List.suffix_cons x q)) hx hlink, walk_nil]

theorem walk_plain {q : List ν} {r : List ν × Nat} (hplain : ∀ p, p <:+ q → isLink tree p = false)
    (h : walk tree links [] (q.reverse.map .name) = some r) : r = (q, links) := by
  induction q generalizing r with
  | nil => exact Option.some.inj (h.symm.trans (walk_nil tree links []))
  | cons x q ih =>
    rw [List.reverse_cons, List.map_append, walk_append, Option.bind_eq_some_iff] at h
    obtain ⟨r', hq, hx⟩ := h
    obtain rfl := ih (fun p hp => hplain p (hp.trans (List.suffix_cons x q))) hq
    obtain ⟨-, hend⟩ := walk_of_not_link hx (hplain _ (List.suffix_refl _))
    exact Option.some.inj (hend.symm.trans (walk_nil tree links _))

/-! ### More entries -/

/-- `tree'` has the entries of `tree`; a file may have other content. -/
structure Within (tree tree' : LinkTree ν κ) : Prop where
  dir : ∀ p, tree p = some .dir → tree' p = some .dir
  link : ∀ p absolute target, tree p = some (.link absolute target) → tree' p = some (.link absolute target)
  file : ∀ p content executable, tree p = some (.file content executable) →
    ∃ content' executable', tree' p = some (.file content' executable')

/-- The same, and what is executable in `tree` is executable in `tree'`. -/
structure Better (tree tree' : LinkTree ν κ) : Prop extends Within tree tree' where
  executable : ∀ p content, tree p = some (.file content true) → ∃ content', tree' p = some (.file content' true)

theorem Within.walkFrom {follow follow' : List ν → List (Component ν) → Option (List ν × Nat)} (h : Within tree tree')
    (hfollow : ∀ cur todo r, follow cur todo = some r → follow' cur todo = some r) (r : List ν × Nat)
    (hwalk : LinkTree.walkFrom tree follow links cur todo = some r) :
    LinkTree.walkFrom tree' follow' links cur todo = some r := by
  induction todo generalizing cur with
  | nil => exact hwalk
  | cons c todo ih =>
    rcases c with x | _
    · rw [LinkTree.walkFrom] at hwalk ⊢
      split_ifs at hwalk with hdir
      rw [if_pos (isDir_iff.mpr (h.dir _ (isDir_iff.mp hdir)))]
      rcases hnode : tree (x :: cur) with _ | _ | ⟨content, executable⟩ | ⟨absolute, target⟩
      · rw [hnode] at hwalk
        cases hwalk
      · rw [hnode] at hwalk
        rw [h.dir _ hnode]
        exact ih hwalk
      · rw [hnode] at hwalk
        obtain ⟨content', executable', hnode'⟩ := h.file _ _ _ hnode
        rw [hnode']
        exact ih hwalk
      · rw [hnode] at hwalk
        rw [h.link _ _ _ hnode]
        exact hfollow _ _ _ hwalk
    · rw [LinkTree.walkFrom] at hwalk ⊢
      split_ifs at hwalk with hdir
      rw [if_pos (isDir_iff.mpr (h.dir _ (isDir_iff.mp hdir)))]
      exact ih hwalk

/-- **What resolves**, resolves to the same with more entries. -/
theorem Within.walk (h : Within tree tree') {r : List ν × Nat} (hwalk : LinkTree.walk tree links cur todo = some r) :
    LinkTree.walk tree' links cur todo = some r := by
  induction links generalizing cur todo r with
  | zero => exact h.walkFrom (fun _ _ _ hfollow => hfollow) r hwalk
  | succ links ih => exact h.walkFrom (fun _ _ _ hfollow => ih hfollow) r hwalk

/-- `tree'` has the directories and the links of `tree`. -/
structure DirsWithin (tree tree' : LinkTree ν κ) : Prop where
  dir : ∀ p, tree p = some .dir → tree' p = some .dir
  link : ∀ p absolute target, tree p = some (.link absolute target) → tree' p = some (.link absolute target)

theorem DirsWithin.walkFrom {follow follow' : List ν → List (Component ν) → Option (List ν × Nat)}
    (h : DirsWithin tree tree') {d : List ν} {left : Nat} (hd : tree d = some .dir)
    (hfollow : ∀ cur todo, follow cur todo = some (d, left) → follow' cur todo = some (d, left))
    (hwalk : LinkTree.walkFrom tree follow links cur todo = some (d, left)) :
    LinkTree.walkFrom tree' follow' links cur todo = some (d, left) := by
  induction todo generalizing cur with
  | nil => exact hwalk
  | cons c todo ih =>
    rcases c with x | _
    · rw [LinkTree.walkFrom] at hwalk ⊢
      split_ifs at hwalk with hdir
      rw [if_pos (isDir_iff.mpr (h.dir _ (isDir_iff.mp hdir)))]
      rcases hnode : tree (x :: cur) with _ | _ | ⟨content, executable⟩ | ⟨absolute, target⟩
      · rw [hnode] at hwalk
        cases hwalk
      · rw [hnode] at hwalk
        rw [h.dir _ hnode]
        exact ih hwalk
      · -- a file does not lead to a directory
        rw [hnode] at hwalk
        cases todo with
        | nil =>
          obtain ⟨rfl, -⟩ := Prod.mk.inj (Option.some.inj hwalk)
          rw [hnode] at hd
          cases hd
        | cons c todo =>
          have hfile : isDir tree (x :: cur) = false := by rw [isDir, hnode]
          simp only [LinkTree.walkFrom, hfile, Bool.false_eq_true, if_false] at hwalk
          cases hwalk
      · rw [hnode] at hwalk
        rw [h.link _ _ _ hnode]
        exact hfollow _ _ hwalk
    · rw [LinkTree.walkFrom] at hwalk ⊢
      split_ifs at hwalk with hdir
      rw [if_pos (isDir_iff.mpr (h.dir _ (isDir_iff.mp hdir)))]
      exact ih hwalk

/-- **What resolves to a directory**, does so without the files. -/
theorem DirsWithin.walk (h : DirsWithin tree tree') {d : List ν} {left : Nat} (hd : tree d = some .dir)
    (hwalk : LinkTree.walk tree links cur todo = some (d, left)) :
    LinkTree.walk tree' links cur todo = some (d, left) := by
  induction links generalizing cur todo with
  | zero => exact h.walkFrom hd (fun _ _ hfollow => hfollow) hwalk
  | succ links ih => exact h.walkFrom hd (fun _ _ hfollow => ih hfollow) hwalk

theorem Better.holds {p : List (Component ν)} {x : ν} (h : Better tree tree') (hholds : Holds tree links p x) :
    Holds tree' links p x := by
  obtain ⟨d, left, hwalk, hdir, q, left', content, hlast, hfile⟩ := hholds
  obtain ⟨content', hfile'⟩ := h.executable q content hfile
  exact ⟨d, left, h.walk hwalk, h.dir d hdir, q, left', content', h.walk hlast, hfile'⟩

theorem Better.of_entries (h : ∀ p node, tree p = some node → tree' p = some node) : Better tree tree' where
  dir p := h p .dir
  link p absolute target := h p (.link absolute target)
  file p content executable hfile := ⟨content, executable, h p _ hfile⟩
  executable p content hfile := ⟨content, h p _ hfile⟩

theorem without_eq_some {gone : List ν → Bool} {p : List ν} {node : Node ν κ} :
    without tree gone p = some node ↔ gone p = false ∧ tree p = some node := by
  unfold without
  cases gone p <;> simp

theorem without_better (tree : LinkTree ν κ) (gone : List ν → Bool) : Better (without tree gone) tree :=
  .of_entries fun _ _ h => (without_eq_some.mp h).2

theorem erase_eq_some [DecidableEq ν] {p q : List ν} {node : Node ν κ} :
    erase tree p q = some node ↔ q ≠ p ∧ tree q = some node := by
  unfold erase
  rw [without_eq_some, decide_eq_false_iff_not]

theorem erase_of_ne [DecidableEq ν] {p q : List ν} (h : q ≠ p) : erase tree p q = tree q :=
  if_neg (mt of_decide_eq_true h)

theorem erase_better [DecidableEq ν] (tree : LinkTree ν κ) (p : List ν) : Better (erase tree p) tree :=
  without_better _ _

theorem put_self [DecidableEq ν] (tree : LinkTree ν κ) (p : List ν) (node : Node ν κ) : put tree p node p = some node :=
  if_pos rfl

theorem put_of_ne [DecidableEq ν] {p q : List ν} (h : q ≠ p) (node : Node ν κ) : put tree p node q = tree q :=
  if_neg h

theorem Better.without (h : Better tree tree') (gone : List ν → Bool) :
    Better (tree.without gone) (tree'.without gone) where
  dir p hdir := by
    obtain ⟨hgone, hdir⟩ := without_eq_some.mp hdir
    exact without_eq_some.mpr ⟨hgone, h.dir p hdir⟩
  link p absolute target hlink := by
    obtain ⟨hgone, hlink⟩ := without_eq_some.mp hlink
    exact without_eq_some.mpr ⟨hgone, h.link p absolute target hlink⟩
  file p content executable hfile := by
    obtain ⟨hgone, hfile⟩ := without_eq_some.mp hfile
    obtain ⟨content', executable', hfile'⟩ := h.file p content executable hfile
    exact ⟨content', executable', without_eq_some.mpr ⟨hgone, hfile'⟩⟩
  executable p content hfile := by
    obtain ⟨hgone, hfile⟩ := without_eq_some.mp hfile
    obtain ⟨content', hfile'⟩ := h.executable p content hfile
    exact ⟨content', without_eq_some.mpr ⟨hgone, hfile'⟩⟩

theorem Better.put [DecidableEq ν] (h : Better tree tree') (p : List ν) (node : Node ν κ) :
    Better (tree.put p node) (tree'.put p node) where
  dir q hdir := by
    unfold LinkTree.put at hdir ⊢
    split_ifs at hdir ⊢
    · exact hdir
    · exact h.dir q hdir
  link q absolute target hlink := by
    unfold LinkTree.put at hlink ⊢
    split_ifs at hlink ⊢
    · exact hlink
    · exact h.link q absolute target hlink
  file q content executable hfile := by
    unfold LinkTree.put at hfile ⊢
    split_ifs at hfile ⊢
    · exact ⟨content, executable, hfile⟩
    · exact h.file q content executable hfile
  executable q content hfile := by
    unfold LinkTree.put at hfile ⊢
    split_ifs at hfile ⊢
    · exact ⟨content, hfile⟩
    · exact h.executable q content hfile

theorem Better.trans {tree'' : LinkTree ν κ} (h : Better tree tree') (h' : Better tree' tree'') :
    Better tree tree'' where
  dir p hdir := h'.dir p (h.dir p hdir)
  link p absolute target hlink := h'.link p absolute target (h.link p absolute target hlink)
  file p content executable hfile := by
    obtain ⟨content', executable', hfile'⟩ := h.file p content executable hfile
    exact h'.file p content' executable' hfile'
  executable p content hfile := by
    obtain ⟨content', hfile'⟩ := h.executable p content hfile
    exact h'.executable p content' hfile'

theorem better_put [DecidableEq ν] {p : List ν} (h : tree p = none) (node : Node ν κ) :
    Better tree (tree.put p node) := by
  refine .of_entries fun q node' hq => ?_
  rw [put_of_ne, hq]
  rintro rfl
  rw [h] at hq
  cases hq

theorem better_put_file [DecidableEq ν] {p : List ν} {content : κ} {executable : Bool}
    (h : tree p = some (.file content executable)) (content' : κ) :
    Better tree (tree.put p (.file content' true)) where
  dir q hdir := by
    rw [put_of_ne, hdir]
    rintro rfl
    rw [h] at hdir
    cases hdir
  link q absolute target hlink := by
    rw [put_of_ne, hlink]
    rintro rfl
    rw [h] at hlink
    cases hlink
  file q content executable hfile := by
    unfold LinkTree.put
    split_ifs
    · exact ⟨content', true, rfl⟩
    · exact ⟨content, executable, hfile⟩
  executable q content hfile := by
    unfold LinkTree.put
    split_ifs
    · exact ⟨content', rfl⟩
    · exact ⟨content, hfile⟩

theorem put_file_within [DecidableEq ν] {p : List ν} {content : κ} {executable : Bool}
    (h : tree p = some (.file content executable)) (content' : κ) (executable' : Bool) :
    Within (tree.put p (.file content' executable')) tree where
  dir q hdir := by
    unfold LinkTree.put at hdir
    split_ifs at hdir
    · cases hdir
    · exact hdir
  link q absolute target hlink := by
    unfold LinkTree.put at hlink
    split_ifs at hlink
    · cases hlink
    · exact hlink
  file q content'' executable'' hfile := by
    unfold LinkTree.put at hfile
    split_ifs at hfile with hq
    · exact ⟨content, executable, by rw [hq, h]⟩
    · exact ⟨content'', executable'', hfile⟩

theorem put_put [DecidableEq ν] (tree : LinkTree ν κ) (p : List ν) (node node' : Node ν κ) :
    (tree.put p node).put p node' = tree.put p node' := by
  funext q
  unfold LinkTree.put
  split_ifs <;> rfl

/-! ### Executables -/

theorem walk_parent {p : List (Component ν)} {c : Component ν} {r : List ν × Nat}
    (h : walk tree links [] (p ++ [c]) = some r) :
    ∃ d left, walk tree links [] p = some (d, left) ∧ tree d = some .dir ∧ walk tree left d [c] = some r := by
  rw [walk_append] at h
  obtain ⟨⟨d, left⟩, hwalk, hlast⟩ := Option.bind_eq_some_iff.mp h
  exact ⟨d, left, hwalk, walk_dir hlast, hlast⟩

theorem holds_iff {p : List (Component ν)} {x : ν} :
    Holds tree links p x ↔ (fileAt tree links (p ++ [.name x])).any (fun file => file.2.2) = true := by
  constructor
  · rintro ⟨d, left, hwalk, -, q, left', content, hlast, hfile⟩
    have hall : walk tree links [] (p ++ [.name x]) = some (q, left') := by
      rw [walk_append, hwalk]
      exact hlast
    unfold fileAt
    rw [hall]
    dsimp only
    rw [hfile]
    rfl
  · intro h
    unfold fileAt at h
    rcases hwalk : walk tree links [] (p ++ [.name x]) with _ | ⟨q, left'⟩
    · rw [hwalk] at h
      cases h
    · rw [hwalk] at h
      dsimp only at h
      obtain ⟨d, left, hparent, hdir, hlast⟩ := walk_parent hwalk
      rcases hfile : tree q with _ | _ | ⟨content, executable⟩ | ⟨absolute, target⟩
      · rw [hfile] at h
        cases h
      · rw [hfile] at h
        cases h
      · rw [hfile] at h
        obtain rfl : executable = true := h
        exact ⟨d, left, hparent, hdir, q, left', content, hlast, hfile⟩
      · rw [hfile] at h
        cases h

instance (tree : LinkTree ν κ) (links : Nat) (p : List (Component ν)) (x : ν) : Decidable (Holds tree links p x) :=
  decidable_of_iff _ holds_iff.symm

theorem entryAt_eq_some {p : List (Component ν)} {x : ν} {q : List ν} :
    entryAt tree links p x = some q ↔
      ∃ d left, walk tree links [] p = some (d, left) ∧ tree d = some .dir ∧ q = x :: d := by
  unfold entryAt
  rcases walk tree links [] p with _ | ⟨d, left⟩
  · simp
  · dsimp only
    split_ifs with hdir
    · rw [Option.some_inj]
      constructor
      · rintro rfl
        exact ⟨d, left, rfl, isDir_iff.mp hdir, rfl⟩
      · rintro ⟨_, _, hwalk, _, rfl⟩
        cases hwalk
        rfl
    · constructor
      · intro h
        cases h
      · rintro ⟨_, _, hwalk, htree, -⟩
        cases hwalk
        exact absurd (isDir_iff.mpr htree) hdir

theorem Within.entryAt (h : Within tree tree') {p : List (Component ν)} {x : ν} {q : List ν}
    (hentry : LinkTree.entryAt tree links p x = some q) : LinkTree.entryAt tree' links p x = some q := by
  obtain ⟨d, left, hwalk, hdir, rfl⟩ := entryAt_eq_some.mp hentry
  exact entryAt_eq_some.mpr ⟨d, left, h.walk hwalk, h.dir d hdir, rfl⟩

theorem fileAt_of_entryAt {p : List (Component ν)} {x : ν} {q : List ν} {content : κ} {executable : Bool}
    (hentry : entryAt tree links p x = some q) (hfile : tree q = some (.file content executable)) :
    fileAt tree links (p ++ [.name x]) = some (q, content, executable) := by
  obtain ⟨d, left, hwalk, hdir, rfl⟩ := entryAt_eq_some.mp hentry
  have hlink : isLink tree (x :: d) = false := by
    unfold isLink
    rw [hfile]
  have hall : walk tree links [] (p ++ [.name x]) = some (x :: d, left) := by
    rw [walk_append, hwalk]
    show walk tree left d [.name x] = _
    rw [walk_entry hdir hfile hlink, walk_nil]
  unfold fileAt
  rw [hall]
  dsimp only
  rw [hfile]

theorem fileAt_eq_some {p : List (Component ν)} {q : List ν} {content : κ} {executable : Bool}
    (h : fileAt tree links p = some (q, content, executable)) : tree q = some (.file content executable) := by
  unfold fileAt at h
  rcases hwalk : walk tree links [] p with _ | ⟨q', left⟩
  · rw [hwalk] at h
    cases h
  · rw [hwalk] at h
    dsimp only at h
    rcases hnode : tree q' with _ | _ | ⟨content', executable'⟩ | ⟨absolute, target⟩
    all_goals
      rw [hnode] at h
      cases h
    exact hnode

/-- **A link** to a path that holds an executable holds it too, with one link more. -/
theorem holds_link {n : Nat} {dir target : List (Component ν)} {d : List ν} {x y : ν}
    (hwalk : walk tree links [] dir = some (d, n + 1)) (hdir : tree d = some .dir)
    (hlink : tree (y :: d) = some (.link true target)) (h : Holds tree n target x) :
    Holds tree links (dir ++ [.name y]) x := by
  obtain ⟨e, left, htarget, hrest⟩ := h
  refine ⟨e, left, ?_, hrest⟩
  rw [walk_append, hwalk]
  show walk tree (n + 1) d [.name y] = _
  rw [walk_link hdir hlink, if_pos rfl, List.append_nil]
  exact htarget

end LinkTree

/-! ### System calls -/

/-- The entries of a file system, finitely many. -/
abbrev Files (ν : Type u) (κ : Type v) := AList fun _ : List ν => Node ν κ

namespace Files

variable [DecidableEq ν]

def tree (files : Files ν κ) : LinkTree ν κ := fun p => files.lookup p

/-- `chmod` of a file, to a mode that makes it executable; a link is followed. -/
def chmod (files : Files ν κ) (links : Nat) (p : List (Component ν)) : Option (Files ν κ) :=
  ((tree files).fileAt links p).map fun (q, content, _) => files.insert q (.file content true)

/-- `unlink` of the entry `x` of the directory `dir`, if it is a link. -/
def unlinkLink (files : Files ν κ) (links : Nat) (dir : List (Component ν)) (x : ν) : Files ν κ :=
  match (tree files).entryAt links dir x with
  | none => files
  | some p => if (tree files).isLink p then AList.erase p files else files

/-- `symlink` to an absolute path. -/
def symlink (files : Files ν κ) (links : Nat) (target dir : List (Component ν)) (x : ν) : Option (Files ν κ) :=
  match (tree files).entryAt links dir x with
  | none => none
  | some p => if (tree files p).isSome then none else some (files.insert p (.link true target))

/-- `rename` of an entry, not a directory, to another name. -/
def replace (files : Files ν κ) (links : Nat) (dir : List (Component ν)) (x : ν) (dir' : List (Component ν))
    (x' : ν) : Option (Files ν κ) :=
  match (tree files).entryAt links dir x, (tree files).entryAt links dir' x' with
  | some p, some q =>
    match tree files p with
    | none => none
    | some node => if (tree files).isDir q then none else some ((AList.erase p files).insert q node)
  | _, _ => none

theorem tree_erase (files : Files ν κ) (p : List ν) : tree (AList.erase p files) = (tree files).erase p := by
  funext q
  unfold tree LinkTree.erase LinkTree.without
  by_cases h : q = p
  · rw [if_pos (decide_eq_true h), h, AList.lookup_erase]
  · rw [if_neg (mt of_decide_eq_true h), AList.lookup_erase_ne h]

theorem tree_insert (files : Files ν κ) (p : List ν) (node : Node ν κ) :
    tree (files.insert p node) = (tree files).put p node := by
  funext q
  unfold tree LinkTree.put
  by_cases h : q = p
  · rw [if_pos h, h, AList.lookup_insert]
  · rw [if_neg h, AList.lookup_insert_ne h]

theorem chmod_spec {files files' : Files ν κ} {links : Nat} {p : List (Component ν)}
    (h : chmod files links p = some files') :
    ∃ q content executable, (tree files).fileAt links p = some (q, content, executable) ∧
      tree files' = (tree files).put q (.file content true) := by
  obtain ⟨⟨q, content, executable⟩, hfile, rfl⟩ := Option.map_eq_some_iff.mp h
  exact ⟨q, content, executable, hfile, tree_insert _ _ _⟩

theorem unlinkLink_spec {files : Files ν κ} {links : Nat} {dir : List (Component ν)} {x : ν} {p : List ν}
    (hentry : (tree files).entryAt links dir x = some p) :
    tree (unlinkLink files links dir x) =
      if (tree files).isLink p then (tree files).erase p else tree files := by
  unfold unlinkLink
  rw [hentry]
  dsimp only
  split_ifs
  · exact tree_erase files p
  · rfl

theorem symlink_spec {files files' : Files ν κ} {links : Nat} {target dir : List (Component ν)} {x : ν}
    (h : symlink files links target dir x = some files') :
    ∃ p, (tree files).entryAt links dir x = some p ∧ tree files p = none ∧
      tree files' = (tree files).put p (.link true target) := by
  unfold symlink at h
  rcases hentry : (tree files).entryAt links dir x with _ | p
  · rw [hentry] at h
    cases h
  · rw [hentry] at h
    dsimp only at h
    split_ifs at h with hsome
    cases h
    exact ⟨p, rfl, Option.not_isSome_iff_eq_none.mp hsome, tree_insert _ _ _⟩

theorem replace_spec {files files' : Files ν κ} {links : Nat} {dir dir' : List (Component ν)} {x x' : ν}
    (h : replace files links dir x dir' x' = some files') :
    ∃ p q node, (tree files).entryAt links dir x = some p ∧ (tree files).entryAt links dir' x' = some q ∧
      tree files p = some node ∧ (tree files).isDir q = false ∧
      tree files' = ((tree files).erase p).put q node := by
  unfold replace at h
  rcases hp : (tree files).entryAt links dir x with _ | p
  · rw [hp] at h
    cases h
  · rcases hq : (tree files).entryAt links dir' x' with _ | q
    · rw [hp, hq] at h
      cases h
    · rw [hp, hq] at h
      dsimp only at h
      rcases hnode : tree files p with _ | node
      · rw [hnode] at h
        cases h
      · rw [hnode] at h
        dsimp only at h
        split_ifs at h with hdir
        cases h
        exact ⟨p, q, node, rfl, rfl, hnode, Bool.eq_false_iff.mpr hdir, by rw [tree_insert, tree_erase]⟩

end Files
