import SocketServer.Http.RoundTrip
import SocketServer.Http.UploadFaults

/-!
# Uploads that break off

What the reference finds in a body it finds in every continuation of that body: a blank line stays the first blank line,
and a delimiter line the first delimiter line, because all that decides it is already there. So a body that was cut off
and is accepted all the same has the fields of the whole body, and is as long as their encoding up to the closing `--`.

* `refFields_append` : the fields of a body are those of its continuations;
* `refFields_length` : a body with some fields is at least as long as their encoding up to the closing `--`;
* `parseMultipartStream_truncated` : what the parser and `do_POST` make of a body that was cut off before that.
-/

namespace SocketServer.Http

open Search Text

/-! ### Continuations -/

section continuation

variable {delim rest more : Bytes}

theorem EndsLine.length_pos {tail : Bytes} (h : EndsLine tail) : 0 < tail.length := by
  rw [List.length_pos_iff]
  rintro rfl
  revert h
  decide

theorem DelimiterLine.append (more : Bytes) (h : DelimiterLine delim rest) : DelimiterLine delim (rest ++ more) := by
  refine ⟨h.1.trans (List.prefix_append _ _), ?_⟩
  rw [List.drop_append_of_le_length h.1.length_le]
  exact endsLine_append more h.2

theorem delimiterLine_append_iff (hlen : delim.length + 2 ≤ rest.length) :
    DelimiterLine delim (rest ++ more) ↔ DelimiterLine delim rest := by
  refine ⟨fun h => ⟨?_, ?_⟩, DelimiterLine.append more⟩
  · exact List.prefix_of_prefix_length_le h.1 (List.prefix_append _ _) (by omega)
  · have hend := h.2
    rw [List.drop_append_of_le_length (by omega)] at hend
    exact (endsLine_append_iff more (by rw [List.length_drop]; omega)).mp hend

theorem cutHeaders_append {block behind : Bytes} (more : Bytes) (h : cutHeaders rest = some (block, behind)) :
    cutHeaders (rest ++ more) = some (block, behind ++ more) := by
  have hlen := cutHeaders_length h
  obtain ⟨i, hi, heq⟩ := Option.map_eq_some_iff.mp h
  obtain ⟨rfl, rfl⟩ := Prod.mk.inj heq
  rw [List.length_take, List.length_drop] at hlen
  rw [cutHeaders, find_append_of_some more (by decide) hi, Option.map_some, List.take_append_of_le_length (by omega),
    List.drop_append_of_le_length (by omega)]

theorem cutValue_append {value behind : Bytes} (more : Bytes) (h : cutValue delim rest = some (value, behind)) :
    cutValue delim (rest ++ more) = some (value, behind ++ more) := by
  obtain ⟨j, hj, heq⟩ := Option.map_eq_some_iff.mp h
  obtain ⟨rfl, rfl⟩ := Prod.mk.inj heq
  obtain ⟨hle, hline, hfirst⟩ := (firstSuffix_eq_some_iff _ _ _).mp hj
  -- A delimiter line has a byte behind its delimiter, so an earlier one would have two.
  have hin := hline.2.length_pos
  rw [List.length_drop, List.length_drop] at hin
  have hwhole : firstSuffix (DelimiterLine delim) (rest ++ more) = some j := by
    refine (firstSuffix_eq_some_iff _ _ _).mpr ⟨by rw [List.length_append]; omega, ?_, fun i hi => ?_⟩
    · rw [List.drop_append_of_le_length hle]
      exact hline.append more
    · rw [List.drop_append_of_le_length (by omega), delimiterLine_append_iff (by rw [List.length_drop]; omega)]
      exact hfirst i hi
  rw [cutValue, hwhole, Option.map_some, List.take_append_of_le_length hle, List.drop_append_of_le_length (by omega)]

/-- **The fields of a body** are those of its continuations, with as many rounds or more. -/
theorem refFields_append {fields : List Field} {fuel fuel' : Nat} (more : Bytes) (hle : fuel ≤ fuel')
    (h : refFields delim fuel rest = some fields) : refFields delim fuel' (rest ++ more) = some fields := by
  induction fuel generalizing rest fields fuel' with
  | zero => cases h
  | succ fuel ih =>
    obtain ⟨fuel', rfl⟩ : ∃ n, fuel' = n + 1 := ⟨fuel' - 1, by omega⟩
    rw [refFields] at h ⊢
    split_ifs at h with hdashes hcrlf
    · rw [if_pos (hdashes.trans (List.prefix_append _ _))]
      exact h
    · have hnot : ¬ dashes <+: rest ++ more := fun hp =>
        hdashes (List.prefix_of_prefix_length_le hp (List.prefix_append _ _) hcrlf.length_le)
      have htwo : 2 ≤ rest.length := hcrlf.length_le
      rw [if_neg hnot, if_pos (hcrlf.trans (List.prefix_append _ _)), List.drop_append_of_le_length htwo]
      simp only [Option.bind_eq_bind, Option.bind_eq_some_iff] at h ⊢
      obtain ⟨⟨block, rest₁⟩, hblock, ⟨value, rest₂⟩, hvalue, fields, hfields, heq⟩ := h
      exact ⟨_, cutHeaders_append more hblock, _, cutValue_append more hvalue, fields, ih (by omega) hfields, heq⟩

end continuation

/-! ### Bodies that break off -/

section truncated

variable {boundary : Bytes}

theorem refFields_length {fields : List Field} {fuel : Nat} {rest : Bytes}
    (h : refFields (delimiter boundary) fuel rest = some fields) :
    (encodeParts boundary fields).length ≤ rest.length + 2 := by
  induction fuel generalizing rest fields with
  | zero => cases h
  | succ fuel ih =>
    rw [refFields] at h
    split_ifs at h with hdashes hcrlf
    · obtain rfl := Option.some.inj h
      have hlen := hdashes.length_le
      simp only [dashes, List.length_cons, List.length_nil] at hlen
      simp only [encodeParts, dashes, crlf, List.length_append, List.length_cons, List.length_nil]
      omega
    · simp only [Option.bind_eq_bind, Option.bind_eq_some_iff] at h
      obtain ⟨⟨block, rest₁⟩, hblock, ⟨value, rest₂⟩, hvalue, fields, hfields, heq⟩ := h
      obtain rfl := Option.some.inj heq
      dsimp only at hvalue hfields
      have hlen := hcrlf.length_le
      have hrest := cutHeaders_length hblock
      have hrest₁ := cutValue_length hvalue
      have hrest₂ := ih hfields
      rw [List.length_drop] at hrest
      simp only [crlf, List.length_cons, List.length_nil] at hlen
      simp only [encodeParts, crlf, List.length_append, List.length_cons, List.length_nil]
      omega

variable (hcr : 0x0D ∉ boundary) {fields : List Field}
  (hfields : ∀ field ∈ fields, HeaderBlock field.block ∧ Unambiguous boundary field.value) {cut : Bytes}
  (hcut : cut <+: encodeBody boundary fields) (hshort : cut.length + 2 < (encodeBody boundary fields).length)

include hcr hfields hcut hshort

/-- **The reference refuses** a body that stops before the closing `--`. -/
theorem refBody_truncated : refBody boundary cut = none := by
  by_contra hsome
  obtain ⟨found, hfound⟩ := Option.ne_none_iff_exists'.mp hsome
  obtain ⟨more, hmore⟩ := hcut
  rw [refBody] at hfound
  split_ifs at hfound with hopening
  have hlen := hopening.length_le
  rw [List.length_append, show dashes.length = 2 from rfl] at hlen
  have hrounds : cut.length + 1 ≤ fields.length + cut.length + 1 := by omega
  have hwhole := refFields_append more hrounds hfound
  rw [← List.drop_append_of_le_length (by omega), hmore, encodeBody_drop,
    refFields_encodeParts hcr fields hfields _ (by omega)] at hwhole
  split_ifs at hwhole
  obtain rfl := Option.some.inj hwhole
  have hend := refFields_length hfound
  rw [List.length_drop] at hend
  rw [encodeBody, List.length_append, List.length_append, show dashes.length = 2 from rfl] at hshort
  omega

end truncated

/-! ### The parser -/

section parser

variable {σ τ : Type}

theorem exists_of_feed_error {sink : Sink τ} {ps : List Bytes} {t : τ} {e : ParseError}
    (h : (feed sink ps t).1 = .error e) : ∃ b t', (sink b t').1 = .error e := by
  induction ps generalizing t with
  | nil => cases h
  | cons p ps ih =>
    rw [feed] at h
    rcases hsink : sink p t with ⟨e' | ⟨⟩, t'⟩
    · rw [hsink] at h
      exact ⟨p, t, by rw [hsink]; exact h⟩
    · rw [hsink] at h
      exact ih h

/-- A call of the file object raises `e`. -/
def FileOps.Raises (ops : FileOps σ) (e : ParseError) : Prop :=
  (∃ path s, (ops.openFile path s).1 = .error e) ∨ ∃ b s, (ops.write b s).1 = .error e

theorem Trace.raises_of_run_error {ops : FileOps σ} {tr : Trace} {s : σ} {e : ParseError}
    (h : (tr.run ops s).1 = .error e) : ops.Raises e := by
  obtain ⟨opened, pieces⟩ := tr
  rw [Trace.run] at h
  rcases opened with _ | path
  · exact Or.inr (exists_of_feed_error h)
  · rcases hopen : ops.openFile path s with ⟨e' | ⟨⟩, s'⟩
    all_goals
      dsimp only at h
      rw [hopen] at h
    · exact Or.inl ⟨path, s, by rw [hopen]; exact h⟩
    · exact Or.inr (exists_of_feed_error h)

theorem parseMultipartStream_refused (alnum : Char → Bool) {rfile : RFile} {length : Nat} {boundary : Bytes}
    (hcr : 0x0D ∉ boundary) (hrefused : refBody boundary (rfile.data.take length) = none) (ops : FileOps σ) (w : σ) :
    ∃ e, (parseMultipartStream alnum rfile length boundary ops w).1 = .error e ∧
      ((∃ msg, e = .valueError msg) ∨ ops.Raises e) := by
  obtain ⟨tr, -, -, herror, hok⟩ := parseMultipartStream_trace ops alnum rfile length w hcr
  rcases hrun : (tr.run ops w).1 with e | ⟨⟩
  · exact ⟨e, herror e hrun, Or.inr (Trace.raises_of_run_error hrun)⟩
  · have hout := hok hrun
    rw [refParse, hrefused] at hout
    obtain ⟨msg, hmsg⟩ := hout
    exact ⟨.valueError msg, hmsg, Or.inl ⟨msg, rfl⟩⟩

/-- **A body that breaks off** before the closing `--`, in the stream or at its declared length, makes the parser raise
`ValueError`, unless a call of the file object raises before. `do_POST` never reports it as received. -/
theorem parseMultipartStream_truncated (alnum : Char → Bool) (rfile : RFile) (length : Nat) {boundary : Bytes}
    (hcr : 0x0D ∉ boundary) {fields : List Field}
    (hfields : ∀ field ∈ fields, HeaderBlock field.block ∧ Unambiguous boundary field.value)
    (hcut : rfile.data.take length <+: encodeBody boundary fields)
    (hshort : (rfile.data.take length).length + 2 < (encodeBody boundary fields).length) :
    (∀ (ops : FileOps σ) (w : σ), ∃ e, (parseMultipartStream alnum rfile length boundary ops w).1 = .error e ∧
      ((∃ msg, e = .valueError msg) ∨ ops.Raises e)) ∧
    ∀ (host : Host) (lengthField typeField : Option Str) (fs : FileSystem Str) (dest : Path) (size : Nat),
      contentLength lengthField = some (length : Int) → boundaryFromContentType (typeField.getD []) = some boundary →
      (doPost alnum host lengthField typeField rfile fs).1 ≠ .ok dest size := by
  have hrefused := refBody_truncated hcr hfields hcut hshort
  refine ⟨parseMultipartStream_refused alnum hcr hrefused, ?_⟩
  intro host lengthField typeField fs dest size hlength hboundary hok
  obtain ⟨result, haccepted, -⟩ := doPost_ok_accepted hlength hboundary hok
  obtain ⟨e, herror, -⟩ := parseMultipartStream_refused alnum hcr hrefused host.fileOps (Upload.init host fs)
  rw [haccepted] at herror
  cases herror

end parser

/-- An upload of two bytes. -/
def twoBytes : Bytes := encodeBody [0x54, 0x52] (uploadFields ['a'] ['b'] [0x30, 0x31])

/-- Its stream ends five bytes early, in the closing delimiter. -/
theorem parseMultipartStream_truncated_upload :
    ∃ msg, (parseMultipartStream (fun _ => false) ⟨twoBytes.take 170, [7, 1]⟩ 175 [0x54, 0x52] recorder ⟨[], []⟩).1 =
      .error (.valueError msg) := by
  have hfields : ∀ field ∈ uploadFields ['a'] ['b'] [0x30, 0x31],
      HeaderBlock field.block ∧ Unambiguous [0x54, 0x52] field.value := by
    intro field hfield
    rw [uploadFields, List.mem_cons, List.mem_singleton] at hfield
    rcases hfield with rfl | rfl
    · exact ⟨headerBlock_pathHeaders, by decide⟩
    · exact ⟨headerBlock_fileHeaders (by decide), by decide⟩
  have hcut : (twoBytes.take 170).take 175 <+: twoBytes := (List.take_prefix 175 _).trans (List.take_prefix 170 _)
  have hshort : ((twoBytes.take 170).take 175).length + 2 < twoBytes.length := by decide +kernel
  obtain ⟨e, hout, ⟨msg, rfl⟩ | ⟨path, r, hopen⟩ | ⟨b, r, hwrite⟩⟩ := (parseMultipartStream_truncated
    (fun _ => false) ⟨twoBytes.take 170, [7, 1]⟩ 175 (by decide) hfields hcut hshort).1 recorder ⟨[], []⟩
  · exact ⟨msg, hout⟩
  · cases hopen
  · cases hwrite

end SocketServer.Http
