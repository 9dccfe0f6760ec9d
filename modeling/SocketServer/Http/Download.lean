import SocketServer.Http.Upload
import SocketServer.Lib.Urls

/-!
# GET downloads (`FileHandler.do_GET` of `http_file.py`)

The path comes percent-encoded in the query; `parse_qs` decodes it, and `do_GET` decodes it once more. The base name
of the real path goes into a header line, which is encoded in Latin-1 as it is.

* `sendLoop_eq` : the loop that sends a file sends all of it;
* `okHead_lines_iff` : when the head of the answer has the lines that it is meant to have;
* `doGet_answered_iff` : exactly when the answer is 200 with the bytes of a file.
-/

namespace SocketServer.Http

open Text Urls

/-! ### The handler -/

/-- The text of a header: Latin-1, on one line. -/
def HeaderText (s : Str) : Prop := ∀ c ∈ s, c.toNat < 256 ∧ c ≠ '\n' ∧ c ≠ '\r'

instance : DecidablePred HeaderText := fun s => List.decidableBAll _ s

/-- What the operating system and the base class decide during a download. -/
structure GetHost where
  /-- `os.path.realpath`, `none` where it raises a `ValueError` (a NUL character). -/
  realpath : Str → Option Path
  /-- Does `open` for reading succeed on a file? -/
  mayRead : Path → Bool
  /-- The text of an `OSError`. -/
  osError : Str
  /-- `version_string()`. -/
  server : Str
  /-- `date_time_string()`. -/
  date : Str
  server_text : HeaderText server
  date_text : HeaderText date

inductive GetResponse
  /-- What goes out before and after `end_headers`. -/
  | sent (head body : Bytes)
  /-- `_send_error_json`. -/
  | error (code : Nat) (msg : Str)
  /-- An exception that `do_GET` does not catch ends the request without an answer. -/
  | uncaught (exception : String)
  deriving DecidableEq, Repr

/-- `os.path.basename`. -/
def baseName (path : Path) : Str := path.headD []

def pathText (path : Path) : Str :=
  if path = [] then ['/'] else path.foldl (fun s name => '/' :: (name ++ s)) []

/-- A header line with its field and value. -/
def headerLine (field value : Str) : Str := field ++ [':', ' '] ++ value

/-- The lines of the head of a successful answer. -/
def okLines (host : GetHost) (size : Nat) : List Str :=
  ["HTTP/1.0 200 OK".toList, headerLine "Server".toList host.server, headerLine "Date".toList host.date,
    headerLine "Content-Type".toList "application/octet-stream".toList,
    headerLine "Content-Length".toList (Nat.toDigits 10 size)]

def attachment (name : Str) : Str :=
  headerLine "Content-Disposition".toList ("attachment; filename=\"".toList ++ name ++ ['"'])

/-- The head of a successful answer. -/
def okHead (host : GetHost) (size : Nat) (name : Str) : Str :=
  (okLines host size).flatMap (· ++ ['\r', '\n']) ++ attachment name ++ ['\r', '\n'] ++ ['\r', '\n']

/-- The loop that sends a file of `size` bytes, with so many turns left and so many bytes sent. -/
def sendLoop (content : Bytes) (size : Nat) : Nat → Nat → Bytes
  | 0, _ => []
  | fuel + 1, sent =>
    if sent < size then
      match (content.drop sent).take (min (1 <<< 20) (size - sent)) with
      | [] => []
      | chunk => chunk ++ sendLoop content size fuel (sent + chunk.length)
    else []

/-- What is behind the first `?` of the request target. -/
def queryString (target : Str) : Str := (target.dropWhile (· ≠ '?')).drop 1

def pathKey : Str := ['p', 'a', 't', 'h']

def doGet (host : GetHost) (fs : FileSystem Str) (target : Str) : GetResponse :=
  let raw := (queryValues (queryString target) pathKey).headD []
  match host.realpath (unquote raw) with
  | none => .uncaught "ValueError"
  | some path =>
    if raw = [] then .error 400 "missing path parameter".toList
    else
      match fs.read path with
      | none => .error 404 ("file not found: ".toList ++ pathText path)
      | some content =>
        if ¬ host.mayRead path then .error 500 ("read failed: ".toList ++ host.osError)
        else
          -- nothing goes out before `end_headers`
          match encodeLatin1 (okHead host content.length (baseName path)) with
          | none => .uncaught "UnicodeEncodeError"
          | some head => .sent head (sendLoop content content.length content.length 0)

/-! ### The client -/

/-- The request target for a path, as `urllib.request.quote` encodes it. -/
def filesTarget (path : Str) : Str := "/files".toList ++ '?' :: (pathKey ++ '=' :: quote path)

/-- The bytes of a head with these lines. -/
def headBytes (lines : List Bytes) : Bytes := lines.flatMap (· ++ crlf) ++ crlf

/-- What is before the colon of a header line, or the whole of a line without one. -/
def headerField (line : Bytes) : Bytes := line.takeWhile (· ≠ 0x3A)

/-- The status line and the header fields that `do_GET` sends. -/
def okFields : List Bytes :=
  ["HTTP/1.0 200 OK".toList, "Server".toList, "Date".toList, "Content-Type".toList, "Content-Length".toList,
    "Content-Disposition".toList].map latin1Bytes

/-- The head has these lines, the length among them. A client may end a line at CR LF, at LF or at CR, so none has one
of the two inside: what stood behind it would be a line of its own, and a header field to the client. -/
structure OkLines (lines : List Bytes) (size : Nat) : Prop where
  single : ∀ l ∈ lines, 0x0A ∉ l ∧ 0x0D ∉ l
  fields : lines.map headerField = okFields
  length : latin1Bytes (headerLine "Content-Length".toList (Nat.toDigits 10 size)) ∈ lines

/-- An answer with status 200, with the header fields of `do_GET` and no others, and with this body. -/
def Answered (r : GetResponse) (body : Bytes) : Prop :=
  ∃ lines, r = .sent (headBytes lines) body ∧ OkLines lines body.length

/-- The path names a regular file that can be read, with these bytes. -/
def Names (host : GetHost) (fs : FileSystem Str) (path : Str) (content : Bytes) (real : Path) : Prop :=
  host.realpath path = some real ∧ fs.read real = some content ∧ host.mayRead real

/-! ### The file -/

theorem sendLoop_eq (content : Bytes) (fuel sent : Nat) (hfuel : content.length - sent ≤ fuel) :
    sendLoop content content.length fuel sent = content.drop sent := by
  induction fuel generalizing sent with
  | zero => exact (List.drop_eq_nil_of_le (by omega)).symm
  | succ fuel ih =>
    unfold sendLoop
    split_ifs with hmore
    · have hchunk : ((content.drop sent).take (min (1 <<< 20) (content.length - sent))).length =
          min (1 <<< 20) (content.length - sent) := by
        rw [List.length_take, List.length_drop]
        omega
      have hpos : 0 < min (1 <<< 20) (content.length - sent) := lt_min (by decide) (by omega)
      split
      · rename_i hnil
        rw [hnil, List.length_nil] at hchunk
        omega
      · rw [ih _ (by omega), hchunk, ← List.drop_drop, List.take_append_drop]
    · exact (List.drop_eq_nil_of_le (by omega)).symm

/-! ### The head -/

theorem byte_eq_iff {c d : Char} (hc : c.toNat < 256) (hd : d.toNat < 256) :
    UInt8.ofNat c.toNat = UInt8.ofNat d.toNat ↔ c = d := by
  rw [← UInt8.toNat_inj, UInt8.toNat_ofNat', UInt8.toNat_ofNat', Nat.mod_eq_of_lt hc, Nat.mod_eq_of_lt hd,
    Char.toNat_inj]

theorem mem_latin1Bytes {s : Str} (hs : isLatin1 s) {d : Char} (hd : d.toNat < 256) :
    UInt8.ofNat d.toNat ∈ latin1Bytes s ↔ d ∈ s := by
  constructor
  · intro hmem
    obtain ⟨c, hc, hbyte⟩ := List.mem_map.mp hmem
    have hlt : c.toNat < 256 := of_decide_eq_true (List.all_eq_true.mp hs c hc)
    obtain rfl := (byte_eq_iff hlt hd).mp hbyte
    exact hc
  · exact List.mem_map_of_mem

theorem HeaderText.append {s t : Str} (hs : HeaderText s) (ht : HeaderText t) : HeaderText (s ++ t) :=
  List.forall_mem_append.mpr ⟨hs, ht⟩

theorem headerText_iff {s : Str} : HeaderText s ↔ isLatin1 s ∧ '\n' ∉ s ∧ '\r' ∉ s := by
  constructor
  · intro h
    refine ⟨List.all_eq_true.mpr fun c hc => decide_eq_true (h c hc).1, fun hmem => ?_, fun hmem => ?_⟩
    · exact (h _ hmem).2.1 rfl
    · exact (h _ hmem).2.2 rfl
  · rintro ⟨hlatin, hnewline, hreturn⟩ c hc
    refine ⟨of_decide_eq_true (List.all_eq_true.mp hlatin c hc), ?_, ?_⟩
    · rintro rfl
      exact hnewline hc
    · rintro rfl
      exact hreturn hc

theorem headerText_bytes {s : Str} (hs : isLatin1 s) :
    HeaderText s ↔ 0x0A ∉ latin1Bytes s ∧ 0x0D ∉ latin1Bytes s := by
  have hnewline : (0x0A : UInt8) ∈ latin1Bytes s ↔ '\n' ∈ s := mem_latin1Bytes (d := '\n') hs (by decide)
  have hreturn : (0x0D : UInt8) ∈ latin1Bytes s ↔ '\r' ∈ s := mem_latin1Bytes (d := '\r') hs (by decide)
  rw [headerText_iff, and_iff_right hs, hnewline, hreturn]

theorem digits_text (n : Nat) : HeaderText (Nat.toDigits 10 n) := by
  intro c hc
  have hdigit : c.isDigit := Nat.isDigit_of_mem_toDigits (by decide) (by decide) hc
  have hrange : 48 ≤ c.toNat ∧ c.toNat ≤ 57 := by
    simpa [Char.isDigit, UInt32.le_iff_toNat_le] using hdigit
  refine ⟨by omega, ?_, ?_⟩
  all_goals
    rintro rfl
    exact absurd hrange.1 (by decide)

theorem okLines_text (host : GetHost) (size : Nat) : ∀ l ∈ okLines host size, HeaderText l := by
  have hline {field value : Str} (hfield : HeaderText field) (hvalue : HeaderText value) :
      HeaderText (headerLine field value) := (hfield.append (by decide)).append hvalue
  simp only [okLines, List.forall_mem_cons]
  exact ⟨by decide, hline (by decide) host.server_text, hline (by decide) host.date_text,
    hline (by decide) (by decide), hline (by decide) (digits_text size), List.forall_mem_nil _⟩

theorem attachment_eq (name : Str) :
    attachment name = headerLine "Content-Disposition".toList "attachment; filename=\"".toList ++ name ++ ['"'] := by
  simp [attachment, headerLine]

theorem isLatin1_attachment (name : Str) : isLatin1 (attachment name) = isLatin1 name := by
  have hstart : isLatin1 (headerLine "Content-Disposition".toList "attachment; filename=\"".toList) = true := by decide
  rw [attachment_eq, isLatin1_append, isLatin1_append, hstart]
  simp [isLatin1]

theorem headerText_attachment (name : Str) : HeaderText (attachment name) ↔ HeaderText name := by
  have hstart : HeaderText (headerLine "Content-Disposition".toList "attachment; filename=\"".toList) := by decide
  rw [attachment_eq]
  refine ⟨fun h c hc => h c (by simp [hc]), fun h => (hstart.append h).append (by decide)⟩

/-- The lines that are sent, each of which is one line to a client unless the name breaks the last. -/
def sentLines (host : GetHost) (size : Nat) (name : Str) : List Bytes :=
  (okLines host size ++ [attachment name]).map latin1Bytes

theorem okHead_eq (host : GetHost) (size : Nat) (name : Str) :
    latin1Bytes (okHead host size name) = headBytes (sentLines host size name) := by
  simp [okHead, headBytes, sentLines, latin1Bytes, crlf, List.flatMap_map, List.map_flatMap]

theorem headerField_headerLine {field : Str} (h : 0x3A ∉ latin1Bytes field) (value : Str) :
    headerField (latin1Bytes (headerLine field value)) = latin1Bytes field := by
  have hall : ∀ b ∈ latin1Bytes field, decide (b ≠ 0x3A) = true :=
    fun b hb => decide_eq_true fun hcolon => h (hcolon ▸ hb)
  rw [headerField, headerLine, latin1Bytes_append, latin1Bytes_append, List.append_assoc,
    List.takeWhile_append_of_pos hall]
  exact List.append_nil _

theorem sentLines_fields (host : GetHost) (size : Nat) (name : Str) :
    (sentLines host size name).map headerField = okFields := by
  simp only [sentLines, okLines, attachment, List.cons_append, List.nil_append, List.map_cons, List.map_nil, okFields]
  rw [headerField_headerLine (by decide), headerField_headerLine (by decide), headerField_headerLine (by decide),
    headerField_headerLine (by decide), headerField_headerLine (by decide)]
  rfl

theorem count_headBytes {b : UInt8} (hb : crlf.count b = 1) (lines : List Bytes) :
    (headBytes lines).count b = lines.flatten.count b + lines.length + 1 := by
  rw [headBytes, List.count_append, hb]
  induction lines with
  | nil => rfl
  | cons l lines ih =>
    rw [List.flatMap_cons, List.count_append, List.count_append, hb, List.flatten_cons, List.count_append,
      List.length_cons]
    omega

theorem count_flatten_eq_zero {b : UInt8} {lines : List Bytes} :
    lines.flatten.count b = 0 ↔ ∀ l ∈ lines, b ∉ l := by
  simp [List.count_eq_zero]

/-- **When the head has its lines**: when the name is on one line. -/
theorem okHead_lines_iff (host : GetHost) (size : Nat) {name : Str} (hname : isLatin1 name) :
    (∃ lines, latin1Bytes (okHead host size name) = headBytes lines ∧ OkLines lines size) ↔ HeaderText name := by
  have hlatin : isLatin1 (attachment name) = true := by rwa [isLatin1_attachment]
  rw [okHead_eq, ← headerText_attachment, headerText_bytes hlatin]
  constructor
  · rintro ⟨lines, hhead, hlines⟩
    have hlength : lines.length = (sentLines host size name).length := by
      rw [← List.length_map headerField, hlines.fields, ← sentLines_fields host size name, List.length_map]
    have hlast : latin1Bytes (attachment name) ∈ sentLines host size name := by simp [sentLines]
    -- as many line ends on both sides
    have hcount {b : UInt8} (hb : crlf.count b = 1) (hsingle : ∀ l ∈ lines, b ∉ l) :
        b ∉ latin1Bytes (attachment name) := by
      have hsame := congrArg (List.count b) hhead
      rw [count_headBytes hb, count_headBytes hb, hlength, count_flatten_eq_zero.mpr hsingle] at hsame
      exact count_flatten_eq_zero.mp (by omega) _ hlast
    exact ⟨hcount (by decide) fun l hl => (hlines.single l hl).1, hcount (by decide) fun l hl => (hlines.single l hl).2⟩
  · intro hline
    refine ⟨_, rfl, fun l hl => ?_, sentLines_fields host size name, ?_⟩
    · obtain ⟨s, hs, rfl⟩ := List.mem_map.mp hl
      rcases List.mem_append.mp hs with hs | hs
      · have htext := okLines_text host size s hs
        exact (headerText_bytes (headerText_iff.mp htext).1).mp htext
      · obtain rfl := List.mem_singleton.mp hs
        exact hline
    · simp [sentLines, okLines]

/-! ### The answer -/

theorem isLatin1_okHead (host : GetHost) (size : Nat) (name : Str) :
    isLatin1 (okHead host size name) = isLatin1 name := by
  have hlines : isLatin1 ((okLines host size).flatMap (· ++ ['\r', '\n'])) = true := by
    rw [isLatin1, List.all_flatMap, List.all_eq_true]
    intro l hl
    rw [List.all_append]
    exact Bool.and_eq_true_iff.mpr ⟨(headerText_iff.mp (okLines_text host size l hl)).1, rfl⟩
  rw [okHead, isLatin1_append, isLatin1_append, isLatin1_append, hlines, isLatin1_attachment]
  simp [isLatin1]

theorem queryString_append {s : Str} (hs : '?' ∉ s) (t : Str) : queryString (s ++ '?' :: t) = t := by
  have hbefore : ∀ c ∈ s, decide (c ≠ '?') = true := fun c hc => decide_eq_true fun h => hs (h ▸ hc)
  rw [queryString, List.dropWhile_append_of_pos hbefore, List.dropWhile_cons, if_neg (by simp)]
  rfl

theorem queryString_filesTarget (p : Str) : queryString (filesTarget p) = pathKey ++ '=' :: quote p :=
  queryString_append (s := "/files".toList) (by decide) _

theorem raw_filesTarget (p : Str) : (queryValues (queryString (filesTarget p)) pathKey).headD [] = p := by
  have hkey : ∀ c ∈ pathKey, c ≠ '%' ∧ c ≠ '+' ∧ c ≠ '&' ∧ c ≠ '=' := by simp [pathKey]
  rw [queryString_filesTarget, queryValues_quote hkey]
  rfl

theorem doGet_eq_sent (host : GetHost) (fs : FileSystem Str) {p : Str} (hp : p ≠ []) {head body : Bytes} :
    doGet host fs (filesTarget p) = .sent head body ↔
      ∃ real, Names host fs (unquote p) body real ∧ isLatin1 (baseName real) ∧
        latin1Bytes (okHead host body.length (baseName real)) = head := by
  unfold doGet Names
  rw [raw_filesTarget]
  dsimp only
  rcases hreal : host.realpath (unquote p) with _ | real
  · simp
  rcases hread : fs.read real with _ | content
  · simp [hp, hread]
  by_cases hmay : host.mayRead real
  · have hencoded : encodeLatin1 (okHead host content.length (baseName real)) =
        if isLatin1 (baseName real) then some (latin1Bytes (okHead host content.length (baseName real))) else none := by
      rw [encodeLatin1, isLatin1_okHead]
    by_cases hlatin : isLatin1 (baseName real)
    · rw [if_pos hlatin] at hencoded
      dsimp only
      rw [if_neg hp, hread]
      dsimp only
      rw [if_neg (not_not_intro hmay), hencoded]
      dsimp only
      rw [sendLoop_eq content _ 0 (Nat.sub_le _ _), List.drop_zero, GetResponse.sent.injEq]
      constructor
      · rintro ⟨rfl, rfl⟩
        exact ⟨real, ⟨rfl, hread, hmay⟩, hlatin, rfl⟩
      · rintro ⟨real', ⟨hreal', hbody, -⟩, -, hhead⟩
        obtain rfl := Option.some.inj hreal'
        obtain rfl := Option.some.inj (hread.symm.trans hbody)
        exact ⟨hhead, rfl⟩
    · rw [if_neg hlatin] at hencoded
      simp [hp, hread, hmay, hencoded, hlatin]
  · simp [hp, hread, hmay]

/-- **When a file is answered**: the answer is 200 with these bytes if and only if the path, decoded once more, names a
file with these bytes, and the base name of its real path is a Latin-1 text without line breaks. -/
theorem doGet_answered_iff (host : GetHost) (fs : FileSystem Str) {p : Str} (habs : ['/'] <+: p) (content : Bytes) :
    Answered (doGet host fs (filesTarget p)) content ↔
      ∃ real, Names host fs (unquote p) content real ∧ HeaderText (baseName real) := by
  have hp : p ≠ [] := by
    rintro rfl
    simp at habs
  constructor
  · rintro ⟨lines, hsent, hlines⟩
    obtain ⟨real, hnames, hlatin, hhead⟩ := (doGet_eq_sent host fs hp).mp hsent
    exact ⟨real, hnames, (okHead_lines_iff host _ hlatin).mp ⟨lines, hhead, hlines⟩⟩
  · rintro ⟨real, hnames, hname⟩
    have hlatin := (headerText_iff.mp hname).1
    obtain ⟨lines, hhead, hlines⟩ := (okHead_lines_iff host content.length hlatin).mpr hname
    exact ⟨lines, (doGet_eq_sent host fs hp).mpr ⟨real, hnames, hlatin, hhead⟩, hlines⟩

/-- A file is answered where its path has no escapes: decoding it once more changes nothing. -/
theorem doGet_plain (host : GetHost) (fs : FileSystem Str) {p : Str} (hp : p ≠ []) (hplain : Plain p) {content : Bytes}
    {real : Path} (hnames : Names host fs p content real) (hname : HeaderText (baseName real)) :
    Answered (doGet host fs (filesTarget p)) content := by
  rw [← unquote_plain hplain] at hnames
  have hlatin := (headerText_iff.mp hname).1
  obtain ⟨lines, hhead, hlines⟩ := (okHead_lines_iff host content.length hlatin).mpr hname
  exact ⟨lines, (doGet_eq_sent host fs hp).mpr ⟨real, hnames, hlatin, hhead⟩, hlines⟩

/-- A host without symbolic links and `..`, on which every file may be read. -/
def plainGetHost : GetHost where
  realpath := fun s => if '\x00' ∈ s then none else some ((s.splitOn '/').filter (· ≠ [])).reverse
  mayRead := fun _ => true
  osError := []
  server := "socket_server-file/1.8.2 Python/3.11".toList
  date := "Thu, 01 Jan 1970 00:00:00 GMT".toList
  server_text := by decide
  date_text := by decide

/-- A single file in the root. -/
def singleFile (name : Str) : FileSystem Str := (FileSystem.empty.create [name]).setContent 0 [0x62]

theorem doGet_answered_iff_b :
    Answered (doGet plainGetHost (singleFile ['b']) (filesTarget ['/', 'b'])) [0x62] :=
  (doGet_answered_iff plainGetHost (singleFile ['b']) (by decide) [0x62]).mpr
    ⟨[['b']], ⟨by decide, by decide, rfl⟩, by decide⟩

/-- The file `/a%41` exists and can be read, and is not found. -/
theorem doGet_escapedName :
    Names plainGetHost (singleFile ['a', '%', '4', '1']) ['/', 'a', '%', '4', '1'] [0x62] [['a', '%', '4', '1']] ∧
      ¬ Answered (doGet plainGetHost (singleFile ['a', '%', '4', '1']) (filesTarget ['/', 'a', '%', '4', '1']))
        [0x62] := by
  refine ⟨⟨by decide, by decide, rfl⟩, ?_⟩
  rintro ⟨lines, hsent, -⟩
  obtain ⟨real, ⟨hreal, hread, -⟩, -⟩ := (doGet_eq_sent plainGetHost _ (by decide)).mp hsent
  have hdecoded : plainGetHost.realpath (unquote ['/', 'a', '%', '4', '1']) = some [['a', 'A']] := by decide +kernel
  obtain rfl := Option.some.inj (hreal.symm.trans hdecoded)
  cases hread

end SocketServer.Http
