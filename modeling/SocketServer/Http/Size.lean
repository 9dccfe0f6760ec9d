import SocketServer.Http.Answers

/-!
# The size that is reported

`_sink` counts the bytes of one `file` field, and `size` is set to its count at the end of the field. All `file` fields
go to one file object: what is written are the bytes of all of them, and `size` is the number of bytes of the last.

* `parseMultipartStream_uncounted` : a file object that counts makes no difference;
* `receiveParts_counted` : what is written and what is reported, in terms of the `file` fields;
* `parseMultipartStream_size_iff` : when the two agree.
-/

namespace SocketServer.Http

open Text

variable {σ τ τ' : Type}

/-! ### Counting what is written -/

/-- The file object, with the number of bytes written to it. -/
def FileOps.counted (ops : FileOps σ) : FileOps (σ × Nat) where
  openFile path s := ((ops.openFile path s.1).1, (ops.openFile path s.1).2, s.2)
  write b s := ((ops.write b s.1).1, (ops.write b s.1).2, s.2 + b.length)

/-- The state of the parser without the count. -/
def ParseState.uncounted (st : ParseState (σ × Nat)) : ParseState σ := ⟨st.result, st.fhOpen, st.world.1⟩

theorem feed_map {sink : Sink τ} {sink' : Sink τ'} {f : τ → τ'} (h : ∀ b t, sink' b (f t) = Prod.map id f (sink b t))
    (ps : List Bytes) (t : τ) : feed sink' ps (f t) = Prod.map id f (feed sink ps t) := by
  induction ps generalizing t with
  | nil => rfl
  | cons p ps ih =>
    rw [feed, feed, h]
    rcases sink p t with ⟨e | ⟨⟩, t'⟩
    · rfl
    · exact ih t'

theorem deliver_map {sink : Sink τ} {sink' : Sink τ'} {f : τ → τ'}
    (h : ∀ b t, sink' b (f t) = Prod.map id f (sink b t)) (part : Part) (t : τ) :
    part.deliver sink' (f t) = Prod.map id f (part.deliver sink t) := by
  unfold Part.deliver
  rw [feed_map h]
  rcases feed sink part.pieces t with ⟨e | ⟨⟩, t'⟩ <;> rfl

section counted

variable (alnum : Char → Bool) (ops : FileOps σ)

theorem receiveContent_uncounted (part : Part) (result : MultipartResult) (s : σ × Nat) :
    receiveContent ops part result s.1 =
      Prod.map id ParseState.uncounted (receiveContent ops.counted part result s) := by
  have hsink (b : Bytes) (t : Nat × σ × Nat) : ops.sink b (t.1, t.2.1) =
      Prod.map id (fun t => (t.1, t.2.1)) (ops.counted.sink b t) := rfl
  have hdeliver := deliver_map hsink part (0, s)
  unfold receiveContent
  rw [hdeliver]
  rcases part.deliver ops.counted.sink (0, s) with ⟨e | ⟨⟩, n, s'⟩ <;> rfl

theorem receivePart_uncounted (part : Part) (st : ParseState (σ × Nat)) :
    receivePart alnum ops part st.uncounted =
      Prod.map id ParseState.uncounted (receivePart alnum ops.counted part st) := by
  obtain ⟨result, fhOpen, s⟩ := st
  unfold receivePart
  split_ifs
  · unfold receivePath
    rcases part.deliver (CapSink.call 4096) ⟨[], 0⟩ with ⟨e | ⟨⟩, sink⟩ <;> rfl
  · cases fhOpen with
    | true => exact receiveContent_uncounted ops part _ s
    | false =>
      simp only [receiveFile, ParseState.uncounted, FileOps.counted, Bool.false_eq_true, if_false]
      rcases ops.openFile result.path s.1 with ⟨e | ⟨⟩, s'⟩
      · rfl
      · exact receiveContent_uncounted ops part _ (s', s.2)
  · rfl

theorem receiveParts_uncounted (parts : List Part) (ending : Except ParseError Unit) (st : ParseState (σ × Nat)) :
    receiveParts alnum ops parts ending st.uncounted =
      Prod.map id ParseState.uncounted (receiveParts alnum ops.counted parts ending st) := by
  induction parts generalizing st with
  | nil => rfl
  | cons part parts ih =>
    rw [receiveParts, receiveParts, receivePart_uncounted]
    rcases receivePart alnum ops.counted part st with ⟨e | ⟨⟩, st'⟩
    · rfl
    · exact ih st'

/-- **Counting makes no difference** to what the parser returns and does to the file. -/
theorem parseMultipartStream_uncounted (rfile : RFile) (length : Nat) (boundary : Bytes) (s : σ × Nat) :
    (parseMultipartStream alnum rfile length boundary ops s.1).1 =
        (parseMultipartStream alnum rfile length boundary ops.counted s).1 ∧
      (parseMultipartStream alnum rfile length boundary ops s.1).2.2 =
        (parseMultipartStream alnum rfile length boundary ops.counted s).2.2.1 := by
  obtain ⟨hres, hworld⟩ := parseMultipartStream_eq alnum rfile length boundary ops s.1
  obtain ⟨hres', hworld'⟩ := parseMultipartStream_eq alnum rfile length boundary ops.counted s
  have hparts := receiveParts_uncounted alnum ops (readParts rfile length boundary).1
    (readParts rfile length boundary).2 (ParseState.init s)
  rw [hres, hres', hworld, hworld', show ParseState.init s.1 = (ParseState.init s).uncounted from rfl, hparts]
  exact ⟨rfl, rfl⟩

end counted

/-! ### The `file` fields of a body -/

section size

variable {alnum : Char → Bool} {ops : FileOps σ}

def Part.isFile (alnum : Char → Bool) (part : Part) : Bool := part.name alnum = ['f', 'i', 'l', 'e']

/-- The values of the `file` fields. -/
def fileValues (alnum : Char → Bool) (parts : List Part) : List Bytes :=
  (parts.filter (Part.isFile alnum)).map Part.value

theorem fileValues_append (parts : List Part) (part : Part) :
    fileValues alnum (parts ++ [part]) = fileValues alnum parts ++ if part.isFile alnum then [part.value] else [] := by
  rw [fileValues, List.filter_append, List.map_append]
  cases hfile : part.isFile alnum with
  | false => rw [List.filter_cons_of_neg (by simp [hfile])]; rfl
  | true => rw [List.filter_cons_of_pos hfile]; rfl

theorem feed_counted (ps : List Bytes) (s : σ × Nat) (h : (feed ops.counted.write ps s).1 = .ok ()) :
    (feed ops.counted.write ps s).2.2 = s.2 + ps.flatten.length := by
  induction ps generalizing s with
  | nil => rfl
  | cons p ps ih =>
    rw [feed] at h ⊢
    rcases hwrite : ops.counted.write p s with ⟨e | ⟨⟩, s'⟩
    all_goals rw [hwrite] at h
    · cases h
    · obtain rfl : s' = ((ops.write p s.1).2, s.2 + p.length) := (congrArg Prod.snd hwrite).symm
      rw [List.flatten_cons, List.length_append, ← Nat.add_assoc]
      exact ih _ h

theorem receiveContent_counted {part : Part} {result : MultipartResult} {s : σ × Nat} {st : ParseState (σ × Nat)}
    (h : receiveContent ops.counted part result s = (.ok (), st)) :
    st.world.2 = s.2 + part.value.length ∧ st.result.size = part.value.length := by
  obtain ⟨hres, hworld, hcount⟩ := fileSink_feed ops.counted part.pieces 0 s
  have htotal (hok : (feed ops.counted.write part.pieces s).1 = .ok ()) := feed_counted part.pieces s hok
  unfold receiveContent Part.deliver at h
  rcases hfeed : feed ops.counted.sink part.pieces (0, s) with ⟨e | ⟨⟩, n, s'⟩
  all_goals rw [hfeed] at h hres hworld hcount
  · cases (Prod.mk.inj h).1
  · rcases hend : part.ending with e | ⟨⟩
    all_goals
      rw [hend] at h
      dsimp only at h
      cases h
    rw [← hres] at htotal hcount
    rw [← hworld] at htotal
    exact ⟨htotal rfl, (hcount rfl).trans (Nat.zero_add _)⟩

theorem receiveFile_counted {part : Part} {st st' : ParseState (σ × Nat)}
    (h : receiveFile ops.counted part st = (.ok (), st')) :
    st'.world.2 = st.world.2 + part.value.length ∧ st'.result.size = part.value.length := by
  unfold receiveFile at h
  dsimp only at h
  split_ifs at h
  · exact receiveContent_counted h
  · rcases hopen : ops.counted.openFile st.result.path st.world with ⟨e | ⟨⟩, s⟩
    all_goals rw [hopen] at h
    · cases (Prod.mk.inj h).1
    · obtain rfl : s = ((ops.openFile st.result.path st.world.1).2, st.world.2) := (congrArg Prod.snd hopen).symm
      have hsizes := receiveContent_counted h
      exact hsizes

/-- What is written are the `file` fields, and what is reported is the last of them. -/
structure Counted (alnum : Char → Bool) (seen : List Part) (st : ParseState (σ × Nat)) : Prop where
  total : st.world.2 = (fileValues alnum seen).flatten.length
  size : st.result.size = ((fileValues alnum seen).getLastD []).length

theorem Counted.step {seen : List Part} {part : Part} {st st' : ParseState (σ × Nat)} (h : Counted alnum seen st)
    (hpart : receivePart alnum ops.counted part st = (.ok (), st')) : Counted alnum (seen ++ [part]) st' := by
  have hother (hname : part.name alnum ≠ ['f', 'i', 'l', 'e']) (hworld : st'.world = st.world)
      (hsize : st'.result.size = st.result.size) : Counted alnum (seen ++ [part]) st' := by
    have hfile : part.isFile alnum = false := decide_eq_false hname
    refine ⟨?_, ?_⟩
    · rw [hworld, h.total, fileValues_append, hfile, if_neg Bool.false_ne_true, List.append_nil]
    · rw [hsize, h.size, fileValues_append, hfile, if_neg Bool.false_ne_true, List.append_nil]
  by_cases hname : part.name alnum = ['f', 'i', 'l', 'e']
  · have hfile : part.isFile alnum = true := decide_eq_true hname
    have hpath : part.name alnum ≠ ['p', 'a', 't', 'h'] := by
      rw [hname]
      decide
    rw [receivePart, if_neg hpath, if_pos hname] at hpart
    obtain ⟨htotal, hsize⟩ := receiveFile_counted hpart
    refine ⟨?_, ?_⟩
    · rw [htotal, h.total, fileValues_append, hfile, if_pos rfl, List.flatten_append, List.length_append,
        List.flatten_singleton]
    · rw [hsize, fileValues_append, hfile, if_pos rfl, List.getLastD_concat]
  · rcases receivePart_ok hpart with ⟨-, rfl⟩ | ⟨-, hfile, -⟩ | ⟨-, hfile, -⟩ | ⟨-, -, rfl⟩
    · exact hother hname rfl rfl
    · exact absurd hfile hname
    · exact absurd hfile hname
    · exact hother hname rfl rfl

/-- **What is written and what is reported** of an accepted body. -/
theorem receiveParts_counted {parts : List Part} {ending : Except ParseError Unit} {world : σ}
    {st : ParseState (σ × Nat)}
    (h : receiveParts alnum ops.counted parts ending (ParseState.init (world, 0)) = (.ok (), st)) :
    Counted alnum parts st := by
  have hinit : Counted alnum [] (ParseState.init (world, 0)) := ⟨rfl, rfl⟩
  exact receiveParts_ok (Counted alnum) (fun _ _ _ _ hseen hpart => hseen.step hpart) hinit h

theorem getLastD_length_iff (values : List Bytes) :
    (values.getLastD []).length = values.flatten.length ↔ ∀ value ∈ values.dropLast, value = [] := by
  rcases List.eq_nil_or_concat values with rfl | ⟨before, last, rfl⟩
  · simp
  · rw [List.concat_eq_append, List.getLastD_concat, List.flatten_append, List.flatten_singleton, List.dropLast_concat,
      ← List.flatten_eq_nil_iff, ← List.length_eq_zero_iff, List.length_append]
    omega

end size

/-! ### The answer -/

/-- All `file` fields but the last are empty. -/
def OnlyLastFile (alnum : Char → Bool) (parts : List Part) : Prop :=
  ∀ part ∈ (parts.filter (Part.isFile alnum)).dropLast, part.value = []

/-- **The size.** An accepted body is reported with the number of bytes that were written exactly when all its `file`
fields but the last are empty; so is the size in the answer of `do_POST`. -/
theorem parseMultipartStream_size_iff (alnum : Char → Bool) (rfile : RFile) (length : Nat) (boundary : Bytes) :
    (∀ (ops : FileOps σ) (world : σ) (result : MultipartResult),
      (parseMultipartStream alnum rfile length boundary ops world).1 = .ok result →
      (result.size = (parseMultipartStream alnum rfile length boundary ops.counted (world, 0)).2.2.2 ↔
        OnlyLastFile alnum (readParts rfile length boundary).1)) ∧
    ∀ (host : Host) (lengthField typeField : Option Str) (fs : FileSystem Str) (dest : Path) (size : Nat),
      contentLength lengthField = some (length : Int) → boundaryFromContentType (typeField.getD []) = some boundary →
      (doPost alnum host lengthField typeField rfile fs).1 = .ok dest size →
      (size = (parseMultipartStream alnum rfile length boundary host.fileOps.counted (Upload.init host fs, 0)).2.2.2 ↔
        OnlyLastFile alnum (readParts rfile length boundary).1) := by
  have hsize (σ : Type) (ops : FileOps σ) (world : σ) (result : MultipartResult)
      (haccepted : (parseMultipartStream alnum rfile length boundary ops world).1 = .ok result) :
      result.size = (parseMultipartStream alnum rfile length boundary ops.counted (world, 0)).2.2.2 ↔
        OnlyLastFile alnum (readParts rfile length boundary).1 := by
    obtain ⟨hsame, -⟩ := parseMultipartStream_uncounted alnum ops rfile length boundary (world, 0)
    obtain ⟨st, hreceived, rfl, hworld⟩ := parseMultipartStream_accepted (hsame.symm.trans haccepted)
    obtain ⟨htotal, hsize⟩ := receiveParts_counted hreceived
    rw [hworld, hsize, htotal, getLastD_length_iff, OnlyLastFile, fileValues, ← List.map_dropLast]
    exact List.forall_mem_map
  refine ⟨hsize σ, ?_⟩
  intro host lengthField typeField fs dest size hlength hboundary hok
  obtain ⟨result, haccepted, rfl⟩ := doPost_ok_accepted hlength hboundary hok
  exact hsize Upload host.fileOps (Upload.init host fs) result haccepted

/-- The body of `uploadHi`: one `file` field. -/
theorem parseMultipartStream_size_hi :
    let rfile : RFile := ⟨pathFirstBody, [3, 20]⟩
    let host := bufferingHost none
    (parseMultipartStream (fun _ => false) rfile 52 [0x42] recorder.counted (⟨[], []⟩, 0)).2.2.2 = 2 ∧
      (parseMultipartStream (fun _ => false) rfile 52 [0x42] host.fileOps.counted (Upload.init host .empty, 0)).2.2.2 = 2 := by
  intro rfile host
  obtain ⟨hparser, hanswer⟩ := @parseMultipartStream_size_iff Recorded (fun _ => false) rfile 52 [0x42]
  have honly : OnlyLastFile (fun _ => false) (readParts rfile 52 [0x42]).1 := by
    unfold OnlyLastFile
    decide +kernel
  have haccepted : (parseMultipartStream (fun _ => false) rfile 52 [0x42] recorder ⟨[], []⟩).1 =
      .ok ⟨some ['a'], 2, none, true⟩ := by decide +kernel
  have hok : (uploadHi host).1 = .ok [['a']] 2 := by decide +kernel
  have htype : boundaryFromContentType ['b', 'o', 'u', 'n', 'd', 'a', 'r', 'y', '=', 'B'] = some [0x42] := by decide
  exact ⟨((hparser recorder ⟨[], []⟩ _ haccepted).mpr honly).symm,
    ((hanswer host (some ['5', '2']) (some _) .empty _ _ (by decide) htype hok).mpr honly).symm⟩

/-- Two `file` fields `hi`: four bytes are written, and two are reported. -/
theorem parseMultipartStream_size_two :
    let rfile : RFile := ⟨encodeBody [0x42] [pathField, fileField, fileField], []⟩
    let host := bufferingHost none
    let parsed := parseMultipartStream (fun _ => false) rfile 99 [0x42] host.fileOps.counted (Upload.init host .empty, 0)
    parsed.1 = .ok ⟨some ['a'], 2, none, true⟩ ∧ parsed.2.2.2 = 4 ∧
      answerTo [pathField, fileField, fileField] = .ok [['a']] 2 := by
  decide +kernel

end SocketServer.Http
