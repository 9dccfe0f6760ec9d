import SocketServer.Lib.FileSystem

/-!
# New files, and when two file systems hold the same

`SameFiles` compares what a reader of the tree sees: the directories, and the bytes of the files, but not which inode
they are in. `addFile` is a whole upload to a path that did not exist. It commutes with the directories that
`makedirs` makes elsewhere, and a rename of the new file is the new file under the other name: so a file that is
written under one name and published under another can be compared with one written in place.
-/

namespace FileSystem

variable {ν : Type}

/-! ### The same files -/

/-- The same directories, and the same files with the same bytes. -/
def SameFiles (fs fs' : FileSystem ν) : Prop :=
  ∀ p, (fs.tree p = some .dir ↔ fs'.tree p = some .dir) ∧ fs.read p = fs'.read p

theorem SameFiles.refl (fs : FileSystem ν) : SameFiles fs fs := fun _ => ⟨Iff.rfl, rfl⟩

theorem SameFiles.symm {fs fs' : FileSystem ν} (h : SameFiles fs fs') : SameFiles fs' fs :=
  fun p => ⟨(h p).1.symm, (h p).2.symm⟩

theorem SameFiles.trans {fs fs' fs'' : FileSystem ν} (h : SameFiles fs fs') (h' : SameFiles fs' fs'') :
    SameFiles fs fs'' :=
  fun p => ⟨(h p).1.trans (h' p).1, (h p).2.trans (h' p).2⟩

theorem SameFiles.of_tree {fs fs' : FileSystem ν} (htree : fs'.tree = fs.tree)
    (hcontent : ∀ i < fs.next, fs'.content i = fs.content i) : SameFiles fs fs' := by
  intro p
  refine ⟨by rw [htree], ?_⟩
  exact (read_congr (congrFun htree p) fun i hi => hcontent i (fs.allocated p i hi)).symm

theorem read_eq_none_of_absent {fs : FileSystem ν} {p : List ν} (h : fs.tree p = none) : fs.read p = none := by
  rw [read, h]

/-- Every entry is in a directory. -/
def Closed (fs : FileSystem ν) : Prop := ∀ p, fs.tree p ≠ none → fs.tree p.tail = some .dir

theorem Closed.absent_below {fs : FileSystem ν} (h : fs.Closed) {p q : List ν} (hp : fs.tree p = none)
    (hpq : p <:+ q) : fs.tree q = none := by
  obtain ⟨names, rfl⟩ := hpq
  induction names with
  | nil => exact hp
  | cons name names ih =>
    by_contra hsome
    have hdir := h _ hsome
    rw [List.cons_append, List.tail_cons, ih] at hdir
    cases hdir

@[simp] theorem setContent_setContent (fs : FileSystem ν) (inode : Nat) (s s' : Bytes) :
    (fs.setContent inode s).setContent inode s' = fs.setContent inode s' := by
  apply FileSystem.ext
  · rfl
  · exact Function.update_idem _ _ _
  · rfl

@[simp] theorem setContent_content (fs : FileSystem ν) (inode : Nat) :
    fs.setContent inode (fs.content inode) = fs := by
  apply FileSystem.ext
  · rfl
  · exact Function.update_eq_self _ _
  · rfl

/-! ### New files -/

variable [DecidableEq ν]

/-- A new file at `p` with content `b`. -/
def addFile (fs : FileSystem ν) (p : List ν) (b : Bytes) : FileSystem ν := (fs.create p).setContent fs.next b

variable {fs : FileSystem ν} {p q d : List ν}

theorem addFile_self (hp : p ≠ []) (b : Bytes) : (fs.addFile p b).tree p = some (.file fs.next) := create_self fs hp

theorem addFile_ne (hq : q ≠ p) (b : Bytes) : (fs.addFile p b).tree q = fs.tree q := create_ne fs hq

@[simp] theorem addFile_content_next (fs : FileSystem ν) (p : List ν) (b : Bytes) :
    (fs.addFile p b).content fs.next = b := setContent_self _ _ _

theorem addFile_content_ne {i : Nat} (hi : i ≠ fs.next) (p : List ν) (b : Bytes) :
    (fs.addFile p b).content i = fs.content i := by
  rw [addFile, setContent_ne _ _ hi]
  exact setContent_ne _ _ hi

theorem addFile_tail (hp : p ≠ []) (b : Bytes) : (fs.addFile p b).tree p.tail = fs.tree p.tail := by
  rcases p with _ | ⟨name, up⟩
  · exact absurd rfl hp
  · exact addFile_ne (List.cons_ne_self name up).symm b

theorem read_addFile_self (hp : p ≠ []) (b : Bytes) : (fs.addFile p b).read p = some b := by
  rw [read_of_file (addFile_self hp b), addFile_content_next]

theorem read_addFile_ne (hq : q ≠ p) (b : Bytes) : (fs.addFile p b).read q = fs.read q := by
  apply read_congr (addFile_ne hq b)
  intro i hi
  exact addFile_content_ne (Nat.ne_of_lt (fs.allocated q i hi)) p b

theorem openTrunc_of_absent (hp : fs.tree p = none) (hdir : fs.tree p.tail = some .dir) :
    fs.openTrunc p = some (fs.next, fs.create p) := by
  rw [openTrunc, hp]
  exact if_pos hdir

theorem openTrunc_of_file {i : Nat} (hp : fs.tree p = some (.file i)) :
    fs.openTrunc p = some (i, fs.setContent i []) := by
  rw [openTrunc, hp]

theorem renameFile_addFile (hp : fs.tree p = none) (hq : fs.tree q ≠ some .dir) (hdir : fs.tree q.tail = some .dir)
    (b : Bytes) : (fs.addFile p b).renameFile p q = some (fs.addFile q b) := by
  have hpne := ne_nil_of_absent hp
  have hqne : q ≠ [] := fun hnil => hq (hnil ▸ fs.root)
  have htail : q.tail ≠ p := by
    rintro rfl
    rw [hp] at hdir
    cases hdir
  have hmove : q ≠ p → (fs.addFile p b).move p q = fs.addFile q b := by
    intro hne
    apply FileSystem.ext
    · funext r
      by_cases hrq : r = q
      · rw [hrq, move, setEntry_self _ hqne, addFile_self hpne, addFile_self hqne]
      rw [move, setEntry_ne _ hrq, addFile_ne hrq]
      by_cases hrp : r = p
      · rw [hrp, setEntry_self _ hpne, hp]
      · rw [setEntry_ne _ hrp, addFile_ne hrp]
    · rfl
    · rfl
  unfold renameFile
  rw [addFile_self hpne]
  dsimp only
  by_cases hne : q = p
  · rw [hne, addFile_self hpne]
    exact if_pos rfl
  rw [addFile_ne hne]
  rcases htree : fs.tree q with _ | _ | i
  · dsimp only
    rw [addFile_ne htail, if_pos hdir, hmove hne]
  · exact absurd htree hq
  · dsimp only
    rw [if_neg (Nat.ne_of_gt (fs.allocated q i htree)), hmove hne]

theorem unlink_addFile (hp : fs.tree p = none) (b : Bytes) :
    ∃ fs', (fs.addFile p b).unlink p = some fs' ∧ SameFiles fs fs' := by
  have hpne := ne_nil_of_absent hp
  obtain ⟨fs', hunlink⟩ : ∃ fs', (fs.addFile p b).unlink p = some fs' := by
    rw [unlink, addFile_self hpne]
    exact ⟨_, rfl⟩
  obtain ⟨hgone, htree, hcontent⟩ := unlink_spec hunlink
  refine ⟨fs', hunlink, .of_tree ?_ fun i hi => ?_⟩
  · funext q
    by_cases hq : q = p
    · rw [hq, hgone, hp]
    · rw [htree q hq, addFile_ne hq]
  · rw [hcontent, addFile_content_ne (Nat.ne_of_lt hi)]

theorem setEntry_addFile (hp : p ≠ []) (hq : q ≠ []) (hne : p ≠ q) (b : Bytes) (e : Option Entry)
    (he : ∀ inode, e = some (.file inode) → inode < (fs.addFile q b).next)
    (he' : ∀ inode, e = some (.file inode) → inode < fs.next) :
    (fs.addFile q b).setEntry p e he = (fs.setEntry p e he').addFile q b := by
  apply FileSystem.ext
  · funext r
    by_cases hrp : r = p
    · rw [hrp, setEntry_self _ hp, addFile_ne hne, setEntry_self _ hp]
    rw [setEntry_ne _ hrp]
    by_cases hrq : r = q
    · rw [hrq, addFile_self hq, addFile_self hq, setEntry_next]
    · rw [addFile_ne hrq, addFile_ne hrq, setEntry_ne _ hrp]
  · rfl
  · rfl

theorem mkdir_addFile (hq : q ≠ []) (hne : p ≠ q) (htail : p.tail ≠ q) (b : Bytes) :
    (fs.addFile q b).mkdir p = (fs.mkdir p).map fun fs => fs.addFile q b := by
  unfold mkdir
  rw [addFile_ne hne, addFile_ne htail]
  rcases hp : fs.tree p with _ | _
  · dsimp only
    split_ifs
    · rw [Option.map_some, setEntry_addFile (ne_nil_of_absent hp) hq hne]
    · rfl
  · rfl

/-- **A new file is not in the way** of directories that are not below it. -/
theorem makedirs_addFile (allowed : List ν → Bool) (hq : q ≠ []) (hd : ¬ q <:+ d) (b : Bytes) :
    makedirs allowed d (fs.addFile q b) =
      ((makedirs allowed d fs).1, (makedirs allowed d fs).2.addFile q b) := by
  induction d with
  | nil => rfl
  | cons name up ih =>
    have hup : ¬ q <:+ up := fun h => hd (h.trans (List.suffix_cons name up))
    have hupne : up ≠ q := fun h => hup (h ▸ List.suffix_rfl)
    have hdne : name :: up ≠ q := fun h => hd (h ▸ List.suffix_rfl)
    have hparents : (if (fs.addFile q b).tree up = none then makedirs allowed up (fs.addFile q b)
          else (true, fs.addFile q b)) =
        ((if fs.tree up = none then makedirs allowed up fs else (true, fs)).1,
          (if fs.tree up = none then makedirs allowed up fs else (true, fs)).2.addFile q b) := by
      rw [addFile_ne hupne]
      split_ifs
      · exact ih hup
      · rfl
    rw [makedirs, makedirs, hparents]
    rcases (if fs.tree up = none then makedirs allowed up fs else (true, fs)) with ⟨_ | _, fs₁⟩
    · rfl
    dsimp only
    split_ifs
    · rw [mkdir_addFile hq hdne hupne]
      rcases fs₁.mkdir (name :: up) with _ | fs₂
      · exact Prod.ext (by rw [Option.map_none, addFile_ne hdne]) rfl
      · rfl
    · exact Prod.ext (by rw [addFile_ne hdne]) rfl

/-! ### Directories below a path -/

section below

variable (allowed : List ν → Bool) (hdir : fs.tree p.tail = some .dir) (hd : p <:+ d)

include hdir hd

omit hd allowed in
theorem mkdir_of_absent (habsent : fs.tree p = none) : ∃ fs', fs.mkdir p = some fs' ∧ fs'.tree p = some .dir := by
  refine ⟨fs.setEntry p (some .dir) (by simp), ?_, setEntry_self _ (ne_nil_of_absent habsent) _ _⟩
  rw [mkdir, habsent]
  exact if_pos hdir

/-- On the way to `d`, `p` is made, or nothing is. -/
theorem makedirs_through (habsent : fs.tree p = none) (hbelow : ∀ q, p <:+ q → fs.tree q = none) :
    (allowed p = true → (makedirs allowed d fs).2.tree p = some .dir) ∧
      (allowed p = false → makedirs allowed d fs = (false, fs)) := by
  induction d with
  | nil => exact absurd (List.suffix_nil.mp hd) (ne_nil_of_absent habsent)
  | cons name up ih =>
    rcases List.suffix_cons_iff.mp hd with rfl | hd
    · have hup : fs.tree up ≠ none := by
        rw [show fs.tree up = some .dir from hdir]
        exact Option.some_ne_none _
      rw [makedirs, if_neg hup]
      dsimp only
      refine ⟨fun hallowed => ?_, fun hdenied => ?_⟩
      · obtain ⟨fs', hmkdir, hmade⟩ := mkdir_of_absent hdir habsent
        rw [if_pos hallowed, hmkdir]
        exact hmade
      · rw [if_neg (by rw [hdenied]; decide), habsent]
        rfl
    · obtain ⟨hmade, hdenied⟩ := ih hd
      rw [makedirs, if_pos (hbelow up hd)]
      refine ⟨fun hallowed => ?_, fun hnot => by rw [hdenied hnot]⟩
      have hp := hmade hallowed
      rcases hparents : makedirs allowed up fs with ⟨_ | _, fs₁⟩
      all_goals rw [hparents] at hp
      · exact hp
      dsimp only at hp ⊢
      rcases hmkdir : (if allowed (name :: up) then fs₁.mkdir (name :: up) else none) with _ | fs₂
      · exact hp
      · split_ifs at hmkdir
        exact mkdir_dir hmkdir hp

theorem makedirs_blocked {i : Nat} (hfile : fs.tree p = some (.file i))
    (hbelow : ∀ q, p <:+ q → q ≠ p → fs.tree q = none) : makedirs allowed d fs = (false, fs) := by
  induction d with
  | nil =>
    rw [List.suffix_nil.mp hd, fs.root] at hfile
    cases hfile
  | cons name up ih =>
    -- the last `mkdir` fails, and does not find a directory
    have hlast : fs.mkdir (name :: up) = none → fs.tree (name :: up) ≠ some .dir →
        fs.tree up ≠ none → makedirs allowed (name :: up) fs = (false, fs) := by
      intro hmkdir hnot hup
      rw [makedirs, if_neg hup]
      dsimp only
      rw [hmkdir, ite_self]
      exact Prod.ext (decide_eq_false hnot) rfl
    rcases List.suffix_cons_iff.mp hd with rfl | hd
    · apply hlast
      · rw [mkdir, hfile]
      · rw [hfile]
        simp
      · rw [List.tail_cons] at hdir
        rw [hdir]
        exact Option.some_ne_none _
    by_cases hup : up = p
    · have habsent := hbelow (name :: up) (hup ▸ List.suffix_cons name up) (hup ▸ List.cons_ne_self name up)
      apply hlast
      · have hfile' : fs.tree (name :: up).tail ≠ some .dir := by
          rw [List.tail_cons, hup, hfile]
          simp
        rw [mkdir, habsent]
        exact if_neg hfile'
      · rw [habsent]
        decide
      · rw [hup, hfile]
        exact Option.some_ne_none _
    · rw [makedirs, if_pos (hbelow up hd hup), ih hd]

end below

/-! ### New files and files that are written over -/

theorem setContent_addFile {i : Nat} (hi : i ≠ fs.next) (p : List ν) (b s : Bytes) :
    (fs.addFile p b).setContent i s = (fs.setContent i s).addFile p b := by
  apply FileSystem.ext
  · rfl
  · funext j
    by_cases hji : j = i
    · have hi' : i ≠ (fs.setContent i s).next := hi
      rw [hji, setContent_self, addFile_content_ne hi', setContent_self]
    rw [setContent_ne _ _ hji]
    by_cases hjn : j = fs.next
    · rw [hjn, addFile_content_next]
      exact (addFile_content_next (fs.setContent i s) p b).symm
    · have hjn' : j ≠ (fs.setContent i s).next := hjn
      rw [addFile_content_ne hjn, addFile_content_ne hjn', setContent_ne _ _ hji]
  · rfl

theorem unlink_addFile_addFile (hp : fs.tree p = none) (hq : q ≠ []) (hne : q ≠ p) (b s : Bytes) :
    ∃ fs', ((fs.addFile p b).addFile q s).unlink p = some fs' ∧ SameFiles (fs.addFile q s) fs' := by
  have hpne := ne_nil_of_absent hp
  obtain ⟨fs', hunlink⟩ : ∃ fs', ((fs.addFile p b).addFile q s).unlink p = some fs' := by
    rw [unlink, addFile_ne hne.symm, addFile_self hpne]
    exact ⟨_, rfl⟩
  obtain ⟨hgone, htree, hcontent⟩ := unlink_spec hunlink
  have hread : ∀ r, r ≠ p → fs'.read r = ((fs.addFile p b).addFile q s).read r :=
    fun r hr => read_congr (htree r hr) fun i _ => congrFun hcontent i
  refine ⟨fs', hunlink, fun r => ?_⟩
  by_cases hrp : r = p
  · have hbefore : (fs.addFile q s).tree p = none := by rw [addFile_ne hne.symm, hp]
    rw [hrp, read_eq_none_of_absent hgone, read_eq_none_of_absent hbefore, hgone, hbefore]
    exact ⟨Iff.rfl, rfl⟩
  rw [htree r hrp, hread r hrp]
  by_cases hrq : r = q
  · rw [hrq, addFile_self hq, addFile_self hq, read_addFile_self hq, read_addFile_self hq]
    exact ⟨by simp, rfl⟩
  · rw [addFile_ne hrq, addFile_ne hrq, addFile_ne hrp, read_addFile_ne hrq, read_addFile_ne hrq, read_addFile_ne hrp]
    exact ⟨Iff.rfl, rfl⟩

/-- **A file replaced and a file written over** are the same unless the file has another name: under that, the one
keeps what the other changes. -/
theorem sameFiles_addFile_iff {i : Nat} (hp : fs.tree p = some (.file i)) (b : Bytes) :
    SameFiles (fs.addFile p b) (fs.setContent i b) ↔
      ∀ q, q ≠ p → fs.tree q = some (.file i) → fs.content i = b := by
  have hpne : p ≠ [] := by
    rintro rfl
    rw [fs.root] at hp
    cases hp
  have hwritten : ∀ q, fs.tree q = some (.file i) → (fs.setContent i b).read q = some b := by
    intro q hq
    rw [← setContent_tree fs i b] at hq
    rw [read_of_file hq, setContent_self]
  constructor
  · intro h q hne hq
    have hread := (h q).2
    rw [read_addFile_ne hne, read_of_file hq, hwritten q hq] at hread
    exact Option.some.inj hread
  · intro h q
    by_cases hq : q = p
    · rw [hq, read_addFile_self hpne, hwritten p hp, addFile_self hpne, setContent_tree, hp]
      exact ⟨by simp, rfl⟩
    rw [addFile_ne hq, setContent_tree, read_addFile_ne hq]
    refine ⟨Iff.rfl, ?_⟩
    by_cases hi : fs.tree q = some (.file i)
    · rw [hwritten q hi, read_of_file hi, h q hq hi]
    · refine (read_congr (setContent_tree fs i b ▸ rfl) fun j hj => setContent_ne fs b ?_).symm
      rintro rfl
      exact hi hj

end FileSystem
