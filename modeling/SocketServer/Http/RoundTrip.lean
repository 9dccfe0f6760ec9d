import SocketServer.Http.Refinement

/-!
# Round trip of a multipart body

`multipartBody` is the body that the tests of the parser send, with its two fields as `curl -F` writes them. Where
no value holds a delimiter line, the reference cuts an encoded body into the fields it was made of
(`refBody_encodeBody`), and the parser gives back path and content (`parse_multipartBody_iff`).

A value holds a delimiter line where the delimiter is followed by `--` or `\r\n`, and also where it is followed by
a single `\n`. The docstring of `stream_value` knows the first two only, and so does the loop over the parts,
which refuses what is behind the third.
-/

namespace SocketServer.Http

open Search Text

/-! ### Encoding -/

/-- What is behind a delimiter in the encoding of some fields. -/
def encodeParts (boundary : Bytes) : List Field → Bytes
  | [] => dashes ++ crlf
  | field :: fields =>
    crlf ++ field.block ++ crlf ++ crlf ++ field.value ++ delimiter boundary ++ encodeParts boundary fields

def encodeBody (boundary : Bytes) (fields : List Field) : Bytes := dashes ++ boundary ++ encodeParts boundary fields

def pathHeaders : Str := "Content-Disposition: form-data; name=\"path\"".toList

def disposition (filename : Str) : Str :=
  "Content-Disposition: form-data; name=\"file\"; filename=\"".toList ++ filename ++ ['"']

def contentType : Str := "Content-Type: application/octet-stream".toList

def fileHeaders (filename : Str) : Str := disposition filename ++ ['\r', '\n'] ++ contentType

/-- `_multipart_body(path_val, filename, content, boundary)`. -/
def multipartBody (path filename : Str) (content boundary : Bytes) : Bytes :=
  dashes ++ boundary ++ crlf ++ encodeUtf8 pathHeaders ++ crlf ++ crlf ++ encodeUtf8 path ++ crlf ++
    (dashes ++ boundary ++ crlf ++ encodeUtf8 (fileHeaders filename) ++ crlf ++ crlf ++ content ++ crlf) ++
    (dashes ++ boundary ++ dashes ++ crlf)

/-- The fields of that body. -/
def uploadFields (path filename : Str) (content : Bytes) : List Field :=
  [⟨encodeUtf8 pathHeaders, encodeUtf8 path⟩, ⟨encodeUtf8 (fileHeaders filename), content⟩]

theorem multipartBody_eq (path filename : Str) (content boundary : Bytes) :
    multipartBody path filename content boundary = encodeBody boundary (uploadFields path filename content) := by
  simp only [multipartBody, encodeBody, uploadFields, encodeParts, delimiter, List.append_assoc]

/-! ### Values -/

/-- Continued by the delimiter behind it, a value has no delimiter followed by `--` or `\r\n`. -/
def Unambiguous (boundary value : Bytes) : Prop :=
  ¬ delimiter boundary ++ dashes <:+: value ++ delimiter boundary ∧
    ¬ delimiter boundary ++ crlf <:+: value ++ delimiter boundary

instance (boundary value : Bytes) : Decidable (Unambiguous boundary value) :=
  inferInstanceAs (Decidable (¬ _ ∧ ¬ _))

/-- A value has a delimiter followed by a single `\n`. -/
def HasBareLine (boundary value : Bytes) : Prop := delimiter boundary ++ [0x0A] <:+: value

instance (boundary value : Bytes) : Decidable (HasBareLine boundary value) :=
  inferInstanceAs (Decidable (_ <:+: _))

section value

variable {boundary value more : Bytes} {j : Nat}

theorem delimiterLine_iff (hcr : 0x0D ∉ boundary) (hvalue : Unambiguous boundary value) (hj : j < value.length) :
    DelimiterLine (delimiter boundary) ((value ++ (delimiter boundary ++ more)).drop j) ↔
      delimiter boundary ++ [0x0A] <+: value.drop j := by
  constructor
  · rintro ⟨hocc, hend⟩
    have hlast : delimiter boundary <+: (value ++ (delimiter boundary ++ more)).drop value.length := by
      rw [List.drop_left]
      exact List.prefix_append _ _
    have hapart := delimiters_apart hcr hocc hlast hj
    rw [prefix_drop_append_iff _ _ _ _ hapart] at hocc
    obtain ⟨tail, htail⟩ := hocc
    have hsplit : value = value.take j ++ (delimiter boundary ++ tail) := by rw [htail, List.take_append_drop]
    have hcontinued : (value ++ (delimiter boundary ++ more)).drop j =
        delimiter boundary ++ (tail ++ delimiter boundary ++ more) := by
      rw [List.drop_append_of_le_length (by omega), ← htail]
      simp only [List.append_assoc]
    have hlen := four_le_delimiter boundary
    rw [hcontinued, List.drop_left, endsLine_append_iff more (by rw [List.length_append]; omega)] at hend
    -- what is behind the delimiter, in the value continued by a delimiter
    have hoccurs : ∀ line, (tail ++ delimiter boundary).take 2 = line →
        delimiter boundary ++ line <:+: value ++ delimiter boundary := by
      rintro _ rfl
      refine ⟨value.take j, (tail ++ delimiter boundary).drop 2, ?_⟩
      rw [List.append_assoc, List.append_assoc, List.take_append_drop]
      conv_rhs => rw [hsplit]
      simp only [List.append_assoc]
    rw [← htail]
    rcases hend with hdashes | hcrlf | hbare
    · exact absurd (hoccurs _ hdashes) hvalue.1
    · exact absurd (hoccurs _ hcrlf) hvalue.2
    · rcases tail with _ | ⟨c, tail⟩
      · cases hbare
      · obtain rfl : c = 0x0A := List.head_eq_of_cons_eq hbare
        exact ⟨tail, by rw [List.append_assoc]; rfl⟩
  · rintro ⟨tail, htail⟩
    rw [List.drop_append_of_le_length (by omega), ← htail]
    refine ⟨⟨[0x0A] ++ tail ++ (delimiter boundary ++ more), by simp only [List.append_assoc]⟩, ?_⟩
    rw [List.append_assoc, List.append_assoc, List.drop_left]
    exact Or.inr (Or.inr rfl)

theorem hasBareLine_iff : HasBareLine boundary value ↔
    ∃ j < value.length, delimiter boundary ++ [0x0A] <+: value.drop j := by
  constructor
  · rintro ⟨before, behind, h⟩
    have hlen := congrArg List.length h
    simp only [List.length_append, List.length_singleton] at hlen
    refine ⟨before.length, by omega, behind, ?_⟩
    rw [← h, List.append_assoc, List.append_assoc, List.drop_left, List.append_assoc]
  · rintro ⟨j, -, behind, h⟩
    refine ⟨value.take j, behind, ?_⟩
    rw [List.append_assoc, h, List.take_append_drop]

theorem cutValue_whole (hcr : 0x0D ∉ boundary) (hvalue : Unambiguous boundary value)
    (hbare : ¬ HasBareLine boundary value) (hmore : EndsLine more) :
    cutValue (delimiter boundary) (value ++ (delimiter boundary ++ more)) = some (value, more) := by
  have hline : firstSuffix (DelimiterLine (delimiter boundary)) (value ++ (delimiter boundary ++ more)) =
      some value.length := by
    rw [firstSuffix_eq_some_iff]
    refine ⟨by rw [List.length_append]; omega, ?_, fun j hj hd => ?_⟩
    · rw [List.drop_left]
      exact ⟨List.prefix_append _ _, by rwa [List.drop_left]⟩
    · exact hbare (hasBareLine_iff.mpr ⟨j, hj, (delimiterLine_iff hcr hvalue hj).mp hd⟩)
  rw [cutValue, hline, Option.map_some, List.take_left, ← List.drop_drop, List.drop_left, List.drop_left]

/-- A bare delimiter line ends the value, and `\n` is left in front of the next part. -/
theorem cutValue_bare (more : Bytes) (hcr : 0x0D ∉ boundary) (hvalue : Unambiguous boundary value)
    (hbare : HasBareLine boundary value) :
    ∃ before behind, cutValue (delimiter boundary) (value ++ (delimiter boundary ++ more)) =
      some (before, 0x0A :: behind) := by
  obtain ⟨j, hj, hocc⟩ := hasBareLine_iff.mp hbare
  rcases hline : firstSuffix (DelimiterLine (delimiter boundary)) (value ++ (delimiter boundary ++ more)) with _ | i
  · have hnone := (firstSuffix_eq_none_iff _ _).mp hline j (by rw [List.length_append]; omega)
    exact absurd ((delimiterLine_iff hcr hvalue hj).mpr hocc) hnone
  · obtain ⟨-, hd, hfirst⟩ := (firstSuffix_eq_some_iff _ _ _).mp hline
    have hi : i < value.length := by
      by_contra hge
      exact hfirst j (by omega) ((delimiterLine_iff hcr hvalue hj).mpr hocc)
    obtain ⟨tail, htail⟩ := (delimiterLine_iff hcr hvalue hi).mp hd
    refine ⟨(value ++ (delimiter boundary ++ more)).take i, tail ++ (delimiter boundary ++ more), ?_⟩
    rw [cutValue, hline, Option.map_some, ← List.drop_drop, List.drop_append_of_le_length (by omega), ← htail]
    rw [List.append_assoc, List.append_assoc, List.drop_left]
    rfl

end value

/-! ### Header blocks -/

/-- The blank line behind the block is the first one. -/
def HeaderBlock (block : Bytes) : Prop :=
  ∀ rest, find (crlf ++ crlf) (block ++ (crlf ++ (crlf ++ rest))) = some block.length

theorem find_blank_line {line : Bytes} (hline : 0x0D ∉ line) (rest : Bytes) :
    find (crlf ++ crlf) (line ++ rest) = (find (crlf ++ crlf) rest).map (· + line.length) := by
  have hskip := firstSuffix_skip (crlf ++ crlf <+: ·) (line ++ rest) line.length
    (by rw [List.length_append]; omega) fun j hj hocc => ?_
  · rwa [List.drop_left] at hskip
  · obtain ⟨behind, hbehind⟩ := hocc
    rw [List.drop_append_of_le_length hj.le, List.drop_eq_getElem_cons hj] at hbehind
    obtain ⟨hbyte, -⟩ := List.cons.inj hbehind
    exact hline (hbyte ▸ List.getElem_mem hj)

theorem find_blank (rest : Bytes) : find (crlf ++ crlf) (crlf ++ (crlf ++ rest)) = some 0 := by
  rw [find_eq_some_iff]
  exact ⟨Nat.zero_le _, ⟨rest, rfl⟩, fun j hj => absurd hj (Nat.not_lt_zero j)⟩

theorem headerBlock_line {line : Bytes} (hline : 0x0D ∉ line) : HeaderBlock line := by
  intro rest
  rw [find_blank_line hline, find_blank, Option.map_some, Nat.zero_add]

theorem headerBlock_cons {line block : Bytes} {c : UInt8} (hline : 0x0D ∉ line) (hc : c ≠ 0x0D)
    (hblock : HeaderBlock (c :: block)) : HeaderBlock (line ++ crlf ++ c :: block) := by
  intro rest
  have hskip := firstSuffix_skip (crlf ++ crlf <+: ·) (crlf ++ (c :: block ++ (crlf ++ (crlf ++ rest)))) 2
    (by simp [crlf]) fun j hj hocc => ?_
  · rw [List.append_assoc, List.append_assoc, find_blank_line hline, List.append_assoc, find, hskip]
    have hrest := hblock rest
    rw [find] at hrest
    rw [show (crlf ++ (c :: block ++ (crlf ++ (crlf ++ rest)))).drop 2 = c :: block ++ (crlf ++ (crlf ++ rest)) from rfl,
      hrest]
    simp only [Option.map_some, List.length_append, crlf, List.length_cons, List.length_nil]
    congr 1
    omega
  · obtain ⟨behind, hbehind⟩ := hocc
    rcases j with _ | _ | j
    · simp only [crlf, List.cons_append, List.nil_append, List.drop_zero, List.cons.injEq] at hbehind
      exact hc hbehind.2.2.1.symm
    · simp [crlf] at hbehind
    · omega

/-! ### Bodies -/

theorem endsLine_encodeParts (boundary : Bytes) (fields : List Field) : EndsLine (encodeParts boundary fields) := by
  cases fields with
  | nil => exact Or.inl rfl
  | cons field fields =>
    rw [encodeParts]
    simp only [List.append_assoc]
    exact Or.inr (Or.inl rfl)

theorem refFields_newline (delim : Bytes) (fuel : Nat) (rest : Bytes) :
    refFields delim fuel (0x0A :: rest) = none := by
  cases fuel with
  | zero => rfl
  | succ fuel =>
    rw [refFields, if_neg (by simp [dashes]), if_neg (by simp [crlf])]

variable {boundary : Bytes}

theorem refFields_encodeParts (hcr : 0x0D ∉ boundary) (fields : List Field)
    (hfields : ∀ field ∈ fields, HeaderBlock field.block ∧ Unambiguous boundary field.value) (fuel : Nat)
    (hfuel : fields.length < fuel) :
    refFields (delimiter boundary) fuel (encodeParts boundary fields) =
      if ∃ field ∈ fields, HasBareLine boundary field.value then none else some fields := by
  induction fields generalizing fuel with
  | nil =>
    obtain ⟨fuel, rfl⟩ : ∃ n, fuel = n + 1 := ⟨fuel - 1, by rw [List.length_nil] at hfuel; omega⟩
    rw [refFields, encodeParts, if_pos (List.prefix_append _ _), if_neg (by simp)]
  | cons field fields ih =>
    rw [List.length_cons] at hfuel
    obtain ⟨fuel, rfl⟩ : ∃ n, fuel = n + 1 := ⟨fuel - 1, by omega⟩
    obtain ⟨hblock, hvalue⟩ := hfields field List.mem_cons_self
    have htail := ih (fun f hf => hfields f (List.mem_cons_of_mem _ hf)) fuel (by omega)
    have hheaders := hblock (field.value ++ (delimiter boundary ++ encodeParts boundary fields))
    rw [encodeParts]
    simp only [List.append_assoc]
    rw [refFields, if_neg (by simp [crlf, dashes]), if_pos (List.prefix_append _ _)]
    rw [show ∀ s : Bytes, (crlf ++ s).drop 2 = s from fun _ => rfl, cutHeaders, hheaders]
    have hbehind : (field.block ++ (crlf ++ (crlf ++
        (field.value ++ (delimiter boundary ++ encodeParts boundary fields))))).drop (field.block.length + 4) =
          field.value ++ (delimiter boundary ++ encodeParts boundary fields) := by
      rw [← List.drop_drop, List.drop_left]
      rfl
    simp only [Option.map_some, Option.bind_eq_bind, Option.bind_some, List.take_left, hbehind, List.mem_cons,
      exists_eq_or_imp]
    by_cases hbare : HasBareLine boundary field.value
    · obtain ⟨before, behind, hcut⟩ := cutValue_bare (encodeParts boundary fields) hcr hvalue hbare
      rw [hcut, if_pos (Or.inl hbare), Option.bind_some, refFields_newline]
      rfl
    · rw [cutValue_whole hcr hvalue hbare (endsLine_encodeParts boundary fields), Option.bind_some, htail]
      simp only [hbare, false_or]
      split_ifs <;> rfl

theorem encodeBody_drop (boundary : Bytes) (fields : List Field) :
    (encodeBody boundary fields).drop (boundary.length + 2) = encodeParts boundary fields := by
  rw [encodeBody, Nat.add_comm, ← List.drop_drop, List.append_assoc]
  exact List.drop_left

/-- **The reference cuts an encoded body into its fields**, unless a value has a bare delimiter line. -/
theorem refBody_encodeBody (hcr : 0x0D ∉ boundary) {fields : List Field}
    (hfields : ∀ field ∈ fields, HeaderBlock field.block ∧ Unambiguous boundary field.value) :
    refBody boundary (encodeBody boundary fields) =
      if ∃ field ∈ fields, HasBareLine boundary field.value then none else some fields := by
  have hlen : fields.length ≤ (encodeParts boundary fields).length := by
    clear hfields
    induction fields with
    | nil => exact Nat.zero_le _
    | cons field fields ih =>
      simp only [encodeParts, crlf, List.length_append, List.length_cons, List.length_nil]
      omega
  rw [refBody, if_pos (by rw [encodeBody]; exact List.prefix_append _ _), encodeBody_drop]
  refine refFields_encodeParts hcr fields hfields _ ?_
  rw [encodeBody, List.length_append]
  omega

theorem headerBlocksLoop_of_refFields {delim : Bytes} (fuel : Nat) (rest : Bytes) {fields : List Field}
    (h : refFields delim fuel rest = some fields) : headerBlocksLoop delim fuel rest = fields.map Field.block := by
  induction fuel generalizing rest fields with
  | zero => cases h
  | succ fuel ih =>
    rw [refFields] at h
    rw [headerBlocksLoop]
    split_ifs at h ⊢
    · cases h
      rfl
    · simp only [Option.bind_eq_bind, Option.bind_eq_some_iff] at h
      obtain ⟨⟨block, rest₁⟩, hblock, ⟨value, rest₂⟩, hvalue, fields, hfields, heq⟩ := h
      cases heq
      rw [hblock]
      dsimp only
      rw [hvalue]
      dsimp only
      rw [ih rest₂ hfields]
      rfl

theorem headerBlocks_of_refBody {body : Bytes} {fields : List Field} (h : refBody boundary body = some fields) :
    headerBlocks boundary body = fields.map Field.block := by
  rw [refBody] at h
  rw [headerBlocks]
  split_ifs at h ⊢
  exact headerBlocksLoop_of_refFields _ _ h

/-! ### Uploads -/

/-- A file name that needs no escape in its header and keeps the header block within the limit of `read_headers`. -/
structure PlainName (filename : Str) : Prop where
  quote : '"' ∉ filename
  cr : '\r' ∉ filename
  short : (encodeUtf8 (fileHeaders filename)).length ≤ 16381

theorem quoted_append {text : Str} (h : '"' ∉ text) (s : Str) : quoted (text ++ '"' :: s) = some text := by
  induction text with
  | nil => rfl
  | cons c text ih =>
    rw [List.mem_cons, not_or] at h
    rw [List.cons_append, quoted, if_neg (Ne.symm h.1), ih h.2, Option.map_some]

theorem searchFilename_quoted {s value : Str} (h : quoted s = some value) :
    searchFilename ("filename=\"".toList ++ s) = some value := by
  rw [show "filename=\"".toList ++ s = 'f' :: ("ilename=\"".toList ++ s) from rfl, searchFilename, if_pos ⟨s, rfl⟩,
    show ('f' :: ("ilename=\"".toList ++ s)).drop 10 = s from rfl, h]

theorem searchFilename_fileHeaders {filename : Str} (h : '"' ∉ filename) :
    searchFilename (fileHeaders filename) = some filename := by
  have hfirst : searchFilename (fileHeaders filename) =
      searchFilename ("filename=\"".toList ++ (filename ++ ['"'] ++ ['\r', '\n'] ++ contentType)) := rfl
  rw [hfirst]
  apply searchFilename_quoted
  rw [List.append_assoc, List.append_assoc]
  exact quoted_append h (['\r', '\n'] ++ contentType)

theorem headerBlock_pathHeaders : HeaderBlock (encodeUtf8 pathHeaders) :=
  headerBlock_line (by decide +kernel)

theorem headerBlock_fileHeaders {filename : Str} (h : '\r' ∉ filename) :
    HeaderBlock (encodeUtf8 (fileHeaders filename)) := by
  have hdisposition : '\r' ∉ disposition filename := by
    intro hmem
    rcases List.mem_append.mp hmem with hmem | hmem
    · rcases List.mem_append.mp hmem with hmem | hmem
      · revert hmem
        decide +kernel
      · exact h hmem
    · revert hmem
      decide
  obtain ⟨c, block, htype, hc, hblock⟩ : ∃ c block, encodeUtf8 contentType = c :: block ∧ c ≠ 0x0D ∧
      0x0D ∉ c :: block := ⟨0x43, (encodeUtf8 contentType).tail, by decide +kernel⟩
  rw [fileHeaders, encodeUtf8_append, encodeUtf8_append, htype]
  have hline : 0x0D ∉ encodeUtf8 (disposition filename) :=
    mt (mem_of_mem_encodeUtf8 (show '\r'.toNat < 0x80 by decide)) hdisposition
  exact headerBlock_cons hline hc (headerBlock_line hblock)

theorem foldlM_uploadFields (alnum : Char → Bool) {path filename : Str} (content : Bytes)
    (hpath : (encodeUtf8 path).length ≤ 4096) (hname : '"' ∉ filename) :
    (uploadFields path filename content).foldlM (refField alnum) RefState.init =
      some ⟨⟨some path, content.length, some filename, true⟩, some (some path), content⟩ := by
  have hpathName : fieldName alnum pathHeaders = ['p', 'a', 't', 'h'] := rfl
  have hfileName : fieldName alnum (fileHeaders filename) = ['f', 'i', 'l', 'e'] := rfl
  rw [uploadFields, List.foldlM_cons, refField]
  simp only [decodeUtf8_encodeUtf8, hpathName, if_true, refPath, if_pos hpath]
  rw [Option.bind_eq_bind, Option.bind_some, List.foldlM_cons, refField]
  simp only [decodeUtf8_encodeUtf8, hfileName, if_true]
  rw [if_neg (by decide), refFile, searchFilename_fileHeaders hname]
  rfl

theorem refBody_multipartBody (hcr : 0x0D ∉ boundary) {path filename : Str} {content : Bytes} (hname : PlainName filename)
    (hpath : Unambiguous boundary (encodeUtf8 path)) (hcontent : Unambiguous boundary content) :
    refBody boundary (multipartBody path filename content boundary) =
      if HasBareLine boundary (encodeUtf8 path) ∨ HasBareLine boundary content then none
      else some (uploadFields path filename content) := by
  rw [multipartBody_eq, refBody_encodeBody hcr]
  · simp [uploadFields]
  · intro field hfield
    rw [uploadFields, List.mem_cons, List.mem_singleton] at hfield
    rcases hfield with rfl | rfl
    · exact ⟨headerBlock_pathHeaders, hpath⟩
    · exact ⟨headerBlock_fileHeaders hname.cr, hcontent⟩

/-- **Path and content come back** from the body that encodes them, however it is split into reads, if and only if
neither has the delimiter followed by a single `\n`. -/
theorem parse_multipartBody_iff (alnum : Char → Bool) (rfile : RFile) (length : Nat) (path filename : Str)
    (content boundary : Bytes) (hcr : 0x0D ∉ boundary) (hlen : (encodeUtf8 path).length ≤ 4096)
    (hname : PlainName filename) (hpath : Unambiguous boundary (encodeUtf8 path))
    (hcontent : Unambiguous boundary content)
    (hbody : rfile.data.take length = multipartBody path filename content boundary) :
    let out := parseMultipartStream alnum rfile length boundary recorder ⟨[], []⟩
    (out.1 = .ok ⟨some path, content.length, some filename, true⟩ ∧ out.2.2 = ⟨[some path], content⟩) ↔
      ¬ delimiter boundary ++ [0x0A] <:+: encodeUtf8 path ∧ ¬ delimiter boundary ++ [0x0A] <:+: content := by
  obtain ⟨tr, hworld, hout⟩ := parse_recorder alnum rfile length hcr
  have hfields := refBody_multipartBody hcr hname hpath hcontent
  rw [← not_or]
  change _ ↔ ¬ (HasBareLine boundary (encodeUtf8 path) ∨ HasBareLine boundary content)
  rw [hbody, refParse] at hout
  by_cases hbare : HasBareLine boundary (encodeUtf8 path) ∨ HasBareLine boundary content
  · -- the parts behind the bare line are malformed
    rw [hfields, if_pos hbare] at hout
    obtain ⟨msg, hmsg⟩ := hout
    refine iff_of_false ?_ (not_not.mpr hbare)
    rintro ⟨hok, -⟩
    rw [hmsg] at hok
    cases hok
  · rw [if_neg hbare] at hfields
    rw [hfields, Option.bind_some, foldlM_uploadFields alnum content hlen hname.quote,
      headerBlocks_of_refBody hfields] at hout
    refine iff_of_true ?_ hbare
    rcases hout with ⟨hres, hopened, hwritten⟩ | ⟨-, block, hblock, hover⟩
    · refine ⟨hres, ?_⟩
      rw [hworld, ← hopened, ← hwritten]
      rfl
    · rw [uploadFields, List.map_cons, List.map_cons, List.map_nil, List.mem_cons, List.mem_singleton] at hblock
      have hshort : block.length ≤ 16381 := by
        rcases hblock with rfl | rfl
        · exact show (encodeUtf8 pathHeaders).length ≤ 16381 by decide +kernel
        · exact hname.short
      omega

/-- The content `\r\n--Bx\r\n--B\r` is kept, for a stream that arrives in pieces of 7, 1 and 90 bytes and a rest. -/
theorem parse_multipartBody_lookalike :
    let content : Bytes := [0x0D, 0x0A, 0x2D, 0x2D, 0x42, 0x78, 0x0D, 0x0A, 0x2D, 0x2D, 0x42, 0x0D]
    let out := parseMultipartStream (fun _ => false) ⟨multipartBody ['a'] ['b'] content [0x42], [7, 1, 90]⟩ 300 [0x42]
      recorder ⟨[], []⟩
    out.1 = .ok ⟨some ['a'], 12, some ['b'], true⟩ ∧ out.2.2 = ⟨[some ['a']], content⟩ :=
  (parse_multipartBody_iff (fun _ => false)
    ⟨multipartBody ['a'] ['b'] [0x0D, 0x0A, 0x2D, 0x2D, 0x42, 0x78, 0x0D, 0x0A, 0x2D, 0x2D, 0x42, 0x0D] [0x42],
      [7, 1, 90]⟩ 300 ['a'] ['b'] [0x0D, 0x0A, 0x2D, 0x2D, 0x42, 0x78, 0x0D, 0x0A, 0x2D, 0x2D, 0x42, 0x0D] [0x42]
    (by decide) (by decide) ⟨by decide, by decide, by decide +kernel⟩ (by decide) (by decide)
    (by decide +kernel)).mpr (by decide)

/-- The content `\r\n--B\n` ends at a bare delimiter line, and the body is refused. -/
theorem parse_multipartBody_bareLine :
    let content : Bytes := [0x0D, 0x0A, 0x2D, 0x2D, 0x42, 0x0A]
    let out := parseMultipartStream (fun _ => false) ⟨multipartBody ['a'] ['b'] content [0x42], []⟩ 300 [0x42]
      recorder ⟨[], []⟩
    Unambiguous [0x42] (encodeUtf8 ['a']) ∧ Unambiguous [0x42] content ∧
      out.1 = .error (.valueError "multipart body malformed") ∧ out.2.2 = ⟨[some ['a']], []⟩ := by
  decide +kernel

end SocketServer.Http
