import SocketServer.Http.Interleaving
import SocketServer.Http.UploadFaults

/-!
# `do_POST` as a run

`uploadStep` lets uploads make their calls one by one; `doPost` makes all calls of a request at once.
`doPost_reaches` : on the file system after `os.makedirs`, what `doPost` does for an upload that is answered 200, and
whose `close` loses nothing, is a run of the calls of that upload.
-/

namespace SocketServer.Http

open Text

variable {ι : Type} [DecidableEq ι]

/-! ### Runs of one upload -/

/-- Some calls of upload `u` lead from one state to the other. -/
def Reaches (dest : Path) (content : ι → Bytes) (u : ι) (s s' : UploadState ι) : Prop :=
  ∃ calls : List UploadAction, (calls.map (Prod.mk u)).foldlM (uploadStep dest content) s = some s'

variable (dest : Path) (content : ι → Bytes) (u : ι) (s : UploadState ι)

theorem Reaches.refl : Reaches dest content u s s := ⟨[], rfl⟩

variable {dest content u s}

theorem Reaches.trans {s' s'' : UploadState ι} (h : Reaches dest content u s s')
    (h' : Reaches dest content u s' s'') : Reaches dest content u s s'' := by
  obtain ⟨calls, hcalls⟩ := h
  obtain ⟨calls', hcalls'⟩ := h'
  refine ⟨calls ++ calls', ?_⟩
  rw [List.map_append, List.foldlM_append, hcalls, Option.bind_eq_bind, Option.bind_some, hcalls']

theorem Reaches.call {s' : UploadState ι} (action : UploadAction)
    (h : uploadStep dest content s (u, action) = some s') : Reaches dest content u s s' := by
  refine ⟨[action], ?_⟩
  rw [List.map_singleton, List.foldlM_cons, h]
  rfl

@[simp] theorem UploadState.set_set (s : UploadState ι) (u : ι) (fs fs' : FileSystem Str) (phase phase' : Phase) :
    (s.set u fs phase).set u fs' phase' = s.set u fs' phase' := by
  rw [UploadState.set, UploadState.set, UploadState.set, Function.update_idem]

/-! ### The calls of `do_POST` -/

variable (dest content u s) {host : Host} {up up' : Upload} {fh : FileObject}

theorem write_call (fs : FileSystem Str) (inode off k : Nat) (todo : Bytes) :
    Reaches dest content u (s.set u fs (.writing inode off todo))
      (s.set u (fs.pwrite inode off (todo.take k)) (.writing inode (off + (todo.take k).length) (todo.drop k))) := by
  apply Reaches.call (.write k)
  simp only [uploadStep, set_phase_self, UploadState.set_set]
  rfl

theorem write_reaches (hfh : up.fh = some fh) {b : Bytes} (hwrite : up.write host b = (.ok (), up')) (rest : Bytes) :
    ∃ fh', up'.fh = some fh' ∧
      Reaches dest content u (s.set u up.fs (.writing fh.inode fh.off (fh.pending ++ (b ++ rest))))
        (s.set u up'.fs (.writing fh'.inode fh'.off (fh'.pending ++ rest))) := by
  unfold Upload.write at hwrite
  rw [hfh] at hwrite
  dsimp only [FileObject.flush] at hwrite
  obtain rfl := (Prod.mk.inj hwrite).2
  generalize (up.writes.headD ⟨0, false⟩).flushed = k
  generalize hbuffer : fh.pending ++ b = buffer
  have htodo : fh.pending ++ (b ++ rest) = buffer ++ rest := by rw [← hbuffer, List.append_assoc]
  have hmin : min k buffer.length ≤ buffer.length := Nat.min_le_right _ _
  have htake : (buffer ++ rest).take (min k buffer.length) = buffer.take k := by
    rw [List.take_append_of_le_length hmin, ← List.take_eq_take_min]
  have hdrop : (buffer ++ rest).drop (min k buffer.length) = buffer.drop k ++ rest := by
    rw [List.drop_append_of_le_length hmin]
    rcases Nat.le_total k buffer.length with hk | hk
    · rw [Nat.min_eq_left hk]
    · rw [Nat.min_eq_right hk, List.drop_eq_nil_of_le hk, List.drop_eq_nil_of_le (Nat.le_refl _)]
  have hcall := write_call dest content u s up.fs fh.inode fh.off (min k buffer.length) (buffer ++ rest)
  rw [htake, hdrop] at hcall
  rw [htodo]
  exact ⟨_, rfl, hcall⟩

theorem feed_reaches (hfh : up.fh = some fh) (pieces : List Bytes)
    (hfeed : feed host.fileOps.write pieces up = (.ok (), up')) :
    ∃ fh', up'.fh = some fh' ∧
      Reaches dest content u (s.set u up.fs (.writing fh.inode fh.off (fh.pending ++ pieces.flatten)))
        (s.set u up'.fs (.writing fh'.inode fh'.off fh'.pending)) := by
  induction pieces generalizing up fh with
  | nil =>
    obtain rfl : up = up' := (Prod.mk.inj hfeed).2
    refine ⟨fh, hfh, ?_⟩
    rw [List.flatten_nil, List.append_nil]
    apply Reaches.refl
  | cons p pieces ih =>
    rw [feed, show host.fileOps.write = Upload.write host from rfl] at hfeed
    rcases hwrite : up.write host p with ⟨e | ⟨⟩, up₁⟩
    · rw [hwrite] at hfeed
      cases (Prod.mk.inj hfeed).1
    · rw [hwrite] at hfeed
      obtain ⟨fh₁, hfh₁, hreach⟩ := write_reaches dest content u s hfh hwrite pieces.flatten
      obtain ⟨fh', hfh', hreach'⟩ := ih hfh₁ hfeed
      exact ⟨fh', hfh', hreach.trans hreach'⟩

theorem close_reaches (hfh : up.fh = some fh) (hkeeps : ¬ CloseLoses host up) :
    Reaches dest content u (s.set u up.fs (.writing fh.inode fh.off fh.pending))
      (s.set u (up.closeFile host).fs .closed) := by
  have hall : fh.pending.length ≤ host.close.getD fh.pending.length := by
    rcases hclose : host.close with _ | k
    · exact le_rfl
    · by_contra hlt
      exact hkeeps ⟨fh, k, hfh, hclose, not_le.mp hlt⟩
  have hfs : (up.closeFile host).fs = up.fs.pwrite fh.inode fh.off fh.pending := by
    rw [Upload.closeFile, hfh]
    dsimp only [FileObject.flush]
    rw [List.take_of_length_le hall]
  have hwrite := write_call dest content u s up.fs fh.inode fh.off fh.pending.length fh.pending
  rw [List.take_length, List.drop_length, ← hfs] at hwrite
  apply hwrite.trans
  apply Reaches.call .close
  simp only [uploadStep, set_phase_self, UploadState.set_set]
  rfl

theorem replace_reaches {fs fs' : FileSystem Str} (hrename : fs.renameFile (partPath dest) dest = some fs') :
    Reaches dest content u (s.set u fs .closed) (s.set u fs' .answered) := by
  have hreplace : uploadStep dest content (s.set u fs .closed) (u, .replace) = some (s.set u fs' .published) := by
    simp only [uploadStep, set_phase_self, UploadState.set_set]
    rw [show (s.set u fs .closed).fs = fs from rfl, hrename]
  have hanswer : uploadStep dest content (s.set u fs' .published) (u, .answer) = some (s.set u fs' .answered) := by
    simp only [uploadStep, set_phase_self, UploadState.set_set]
    rfl
  exact (Reaches.call .replace hreplace).trans (.call .answer hanswer)

/-- **An upload answered 200 is a run of its calls**, from the file system that `os.makedirs` leaves, where its
`close` loses nothing. -/
theorem doPost_reaches (alnum : Char → Bool) (host : Host) {lengthField typeField : Option Str} (rfile : RFile)
    (fs : FileSystem Str) {length : Nat} {boundary path file : Bytes} {fields : List Field}
    (hlength : contentLength lengthField = some (length : Int)) (hpos : 0 < length)
    (hboundary : boundaryFromContentType (typeField.getD []) = some boundary) (hcr : 0x0D ∉ boundary)
    (hfields : refBody boundary (rfile.data.take length) = some fields) (hfirst : PathFirst alnum fields path file)
    {size : Nat} (hok : (doPost alnum host lengthField typeField rfile fs).1 = .ok dest size)
    (hkeeps : ¬ CloseLoses host
      (parseMultipartStream alnum rfile length boundary host.fileOps (Upload.init host fs)).2.2)
    (hmade : FileSystem.makedirs host.mayMake dest.tail fs = (true, s.fs)) (hidle : s.phase u = .idle)
    (hcontent : content u = file) :
    Reaches dest content u s (s.set u (doPost alnum host lengthField typeField rfile fs).2 .answered) := by
  rw [doPost_receive alnum host rfile fs hlength hpos hboundary] at hok ⊢
  rcases hparse : parseMultipartStream alnum rfile length boundary host.fileOps (Upload.init host fs) with
    ⟨e | result, br, up⟩
  · exact absurd hok (receive_refused hparse dest size)
  rw [hparse] at hkeeps
  rw [receive_accepted hparse] at hok ⊢
  obtain ⟨hpath, -, hcalls⟩ := parse_calls rfile length fs hcr hfields hfirst hparse
  by_cases hne : decodeUtf8 path = []
  · rw [hne] at hpath
    exact absurd hok (publish_empty hpath dest size)
  obtain ⟨up₁, pieces, hopen, hfeed, hflatten⟩ := hcalls hne
  obtain ⟨dest', fs₁, inode, fs₂, hdest, hmade', htrunc, rfl⟩ := openPart_calls hopen
  obtain ⟨dest'', fh, hdest', -, hpublish⟩ := publish_pathFirst rfile length fs hcr hfields hfirst hparse hne
  obtain rfl := Option.some.inj (hdest.symm.trans hdest')
  rw [hpublish] at hok ⊢
  obtain ⟨rfl, -, -, hrename⟩ := publishPart_ok hok
  have hsame : (true, s.fs) = (true, fs₁) := hmade.symm.trans hmade'
  obtain rfl : s.fs = fs₁ := (Prod.mk.inj hsame).2
  have hopened : Reaches dest content u s (s.set u fs₂ (.writing inode 0 file)) := by
    apply Reaches.call .openPart
    rw [← hcontent]
    simp only [uploadStep, hidle, htrunc]
  obtain ⟨fh', hfh', hfed⟩ := feed_reaches dest content u s rfl pieces hfeed
  rw [List.nil_append, hflatten] at hfed
  have hclosed := close_reaches dest content u s hfh' hkeeps
  exact ((hopened.trans hfed).trans hclosed).trans (replace_reaches dest content u s hrename)

end SocketServer.Http
