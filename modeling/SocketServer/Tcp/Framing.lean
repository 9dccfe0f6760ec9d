import Mathlib.Data.List.Infix
import SocketServer.Tcp.Handler

/-!
# Frames and recv results

A frame on the wire is the length of its body and the body. The peer sends frames one behind the other, and TCP
may cut the stream anywhere. `Aligned` says that the reader stands inside the stream where a frame of it begins
or goes on; `recv_aligned` is what one recv result can do from there.

* `handle_calls_iff` : the commands sent reach `on_data` exactly when no recv result carries bytes of two frames
  and the first one of each frame has its four length bytes (`Fits`). Otherwise bytes are lost: a short first
  result ends the connection, and a result with bytes of the next frame is dropped whole.
* `handle_acted_sent` : the handler acts on bodies of frames only, as long as every dropped result ends where a
  frame ends (`OverrunsEndFrames`). Where one does not, the next result is read as the start of a frame.
-/

namespace SocketServer.Tcp

open Bytes

/-! ### Frames -/

def wire (body : Bytes) : Bytes := encode .little 4 body.length ++ body

/-- Frames, one behind the other. -/
def stream (bodies : List Bytes) : Bytes := (bodies.map wire).flatten

@[simp] theorem wire_length (body : Bytes) : (wire body).length = 4 + body.length := by
  rw [wire, List.length_append, encode_length]

@[simp] theorem stream_cons (body : Bytes) (bodies : List Bytes) :
    stream (body :: bodies) = wire body ++ stream bodies := rfl

theorem stream_append (bodies bodies' : List Bytes) : stream (bodies ++ bodies') = stream bodies ++ stream bodies' := by
  rw [stream, List.map_append, List.flatten_append]
  rfl

/-- A command as it is documented: `[total length i][type i][payload]`, with a type that is no file transfer. -/
structure Frame where
  datatype : Int
  payload : Bytes
  lower : -2 ^ 31 ≤ datatype
  upper : datatype < 2 ^ 31
  command : datatype ∉ fileTypes
  short : payload.length + 4 < 2 ^ 31

/-- What `on_data` is to receive. -/
def Frame.message (frame : Frame) : Int × Bytes := (frame.datatype, frame.payload)

def commandBody (message : Int × Bytes) : Bytes := encodeInt32 .little message.1 ++ message.2

@[simp] theorem commandBody_length (message : Int × Bytes) : (commandBody message).length = 4 + message.2.length := by
  rw [commandBody, List.length_append, encodeInt32_length]

def Frame.body (frame : Frame) : Bytes := commandBody frame.message

theorem Frame.body_length (frame : Frame) : frame.body.length < 2 ^ 31 := by
  rw [Frame.body, commandBody_length, Nat.add_comm]
  exact frame.short

/-! ### The reader in the stream -/

/-- The reader stands in a stream with bodies `todo` still to be delivered and bytes `coming` still to arrive. -/
inductive Aligned : List Bytes → Reader → Bytes → Prop
  | between (todo : List Bytes) : Aligned todo .idle (stream todo)
  | inside (pre rest : Bytes) (todo : List Bytes) : rest ≠ [] →
      Aligned ((pre ++ rest) :: todo) ⟨pre, (pre ++ rest).length⟩ (rest ++ stream todo)

theorem Aligned.eq_idle {r : Reader} {coming : Bytes} (h : Aligned [] r coming) : r = .idle := by
  cases h
  rfl

theorem compareLength_spec (pre : Bytes) {rest x more : Bytes} {todo : List Bytes}
    (h : x ++ more = rest ++ stream todo) :
    (∃ r, compareLength (pre ++ x) (pre ++ rest).length = .incomplete r ∧
      x.length < rest.length ∧ r = ⟨pre ++ x, (pre ++ rest).length⟩ ∧ Aligned ((pre ++ rest) :: todo) r more) ∨
    (compareLength (pre ++ x) (pre ++ rest).length = .message (pre ++ rest) ∧
      x.length = rest.length ∧ more = stream todo) ∨
    (compareLength (pre ++ x) (pre ++ rest).length = .overrun ∧ rest.length < x.length) := by
  have hlen : ∀ y : Bytes, ((pre ++ y).length : Int) = pre.length + y.length := fun y => by
    rw [List.length_append, Int.natCast_add]
  rw [compareLength, hlen, hlen]
  rcases lt_trichotomy x.length rest.length with hlt | heq | hgt
  · left
    rw [if_pos (by omega)]
    refine ⟨_, rfl, hlt, rfl, ?_⟩
    obtain ⟨rest', rfl⟩ : x <+: rest :=
      List.prefix_of_prefix_length_le (List.prefix_append x more) (h ▸ List.prefix_append rest _) hlt.le
    rw [List.append_assoc, List.append_cancel_left_eq] at h
    rw [h, ← List.append_assoc, ← hlen, ← List.append_assoc]
    apply Aligned.inside
    rintro rfl
    simp at hlt
  · right; left
    obtain ⟨rfl, rfl⟩ := List.append_inj h heq
    rw [if_neg (by omega), if_pos rfl]
    exact ⟨rfl, rfl, rfl⟩
  · right; right
    rw [if_neg (by omega), if_neg (by omega)]
    exact ⟨rfl, hgt⟩

/-- How much of the frame in progress has arrived, its length included. -/
def Reader.received (r : Reader) : Nat := if r.dataLen = 0 then 0 else 4 + r.datatotal.length

@[simp] theorem Reader.received_idle : Reader.idle.received = 0 := rfl

/-- **One recv result** of an aligned reader. -/
theorem recv_aligned {todo : List Bytes} {r : Reader} {data more : Bytes} (h : Aligned todo r (data ++ more))
    (hne : data ≠ []) (hshort : ∀ body ∈ todo, body.length < 2 ^ 31) :
    (r.recv data = .tooShort ∧ r.received = 0 ∧ data.length < 4) ∨
    ∃ body todo', todo = body :: todo' ∧
      ((∃ r', r.recv data = .incomplete r' ∧ r.received + data.length < (wire body).length ∧
          r'.received = r.received + data.length ∧ Aligned todo r' more) ∨
        (r.recv data = .message body ∧ r.received + data.length = (wire body).length ∧ more = stream todo') ∨
        (r.recv data = .overrun ∧ (wire body).length < r.received + data.length)) := by
  generalize hcoming : data ++ more = coming at h
  cases h with
  | between =>
    by_cases hfour : data.length < 4
    · exact Or.inl ⟨by rw [Reader.recv, Reader.idle, if_pos rfl, if_pos hfour], rfl, hfour⟩
    rcases todo with _ | ⟨body, todo⟩
    · exact absurd (List.append_eq_nil_iff.mp hcoming).1 hne
    -- the first four bytes are the length of the next frame
    have hsplit : data.take 4 ++ (data.drop 4 ++ more) = encode .little 4 body.length ++ (body ++ stream todo) := by
      rw [← List.append_assoc, List.take_append_drop, hcoming, stream_cons, wire, List.append_assoc]
    obtain ⟨hhead, htail⟩ := List.append_inj hsplit
      (by rw [List.length_take, encode_length, min_eq_left (by omega)])
    have hrecv : Reader.idle.recv data = compareLength ([] ++ data.drop 4) ([] ++ body).length := by
      rw [Reader.recv, Reader.idle, if_pos rfl, if_neg hfour, hhead,
        decodeInt32_encode (hshort body List.mem_cons_self)]
      rfl
    have hdrop : (data.drop 4).length + 4 = data.length := by
      rw [List.length_drop]
      omega
    refine Or.inr ⟨body, todo, rfl, ?_⟩
    rw [hrecv, wire_length, Reader.received_idle]
    rcases compareLength_spec [] htail with ⟨r', hr', hlt, heq, haligned⟩ | ⟨hmsg, heq, hmore⟩ | ⟨hover, hlt⟩
    · refine Or.inl ⟨r', hr', by omega, ?_, haligned⟩
      have hne : (([] ++ body).length : Int) ≠ 0 := by
        rw [List.nil_append]
        omega
      rw [heq, Reader.received, if_neg hne, List.nil_append]
      dsimp only
      omega
    · exact Or.inr (Or.inl ⟨hmsg, by omega, hmore⟩)
    · exact Or.inr (Or.inr ⟨hover, by omega⟩)
  | inside pre rest todo hrest =>
    have hpos := List.length_pos_of_ne_nil hrest
    have hlen := @List.length_append _ pre rest
    have hne : ((pre ++ rest).length : Int) ≠ 0 := by omega
    have hrecv : (⟨pre, (pre ++ rest).length⟩ : Reader).recv data =
        compareLength (pre ++ data) (pre ++ rest).length := by
      rw [Reader.recv, if_neg hne]
    have hreceived : (⟨pre, (pre ++ rest).length⟩ : Reader).received = 4 + pre.length := by
      rw [Reader.received, if_neg hne]
    refine Or.inr ⟨pre ++ rest, todo, rfl, ?_⟩
    rw [hrecv, hreceived, wire_length]
    rcases compareLength_spec _ hcoming with ⟨r', hr', hlt, heq, haligned⟩ | ⟨hmsg, heq, hmore⟩ | ⟨hover, hlt⟩
    · refine Or.inl ⟨r', hr', by omega, ?_, haligned⟩
      rw [heq, Reader.received, if_neg hne, List.length_append]
      omega
    · exact Or.inr (Or.inl ⟨hmsg, by omega, hmore⟩)
    · exact Or.inr (Or.inr ⟨hover, by omega⟩)

/-! ### What a message does to the record -/

variable {P ω : Type} (env : HandlerEnv P ω)

/-- The messages acted on and the calls of `on_data` are those of `s`. -/
def SameRecord (s s' : Session P ω) : Prop := s'.acted = s.acted ∧ s'.calls = s.calls

theorem reply_record (data : Bytes) (s : Session P ω) : SameRecord s (reply env data s).2 := by
  unfold reply
  rcases env.sendall data s.world with ⟨_ | _, world⟩ <;> exact ⟨rfl, rfl⟩

theorem fileName_record (data : Bytes) (s : Session P ω) : SameRecord s (fileName env data s).2 := by
  unfold fileName
  rcases env.loads data with _ | ⟨filepath, gzip⟩
  · exact ⟨rfl, rfl⟩
  · exact reply_record env _ { s with filepath := filepath, gzip := some gzip }

theorem fileLength_record (data : Bytes) (s : Session P ω) : SameRecord s (fileLength env data s).2 := by
  unfold fileLength
  split_ifs
  · exact ⟨rfl, rfl⟩
  · exact ⟨rfl, rfl⟩
  · exact reply_record env _
      { s with length := decode .little data, content := [], binRecvFlag := true, bufsize := 102400000 }

theorem fileContent_record (data : Bytes) (s : Session P ω) : SameRecord s (fileContent env data s).2 := by
  unfold fileContent
  dsimp only
  split_ifs
  · exact reply_record env _ { s with content := s.content ++ data, bufsize := 1024, binRecvFlag := false }
  · exact ⟨rfl, rfl⟩
  · exact ⟨rfl, rfl⟩

theorem fileWrite_record (s : Session P ω) : SameRecord s (fileWrite env s).2 := by
  unfold fileWrite
  rcases s.gzip with _ | gzip
  · exact ⟨rfl, rfl⟩
  dsimp only
  rcases (if gzip then env.decompress s.content else some s.content) with _ | data
  · exact ⟨rfl, rfl⟩
  dsimp only
  rcases env.writeFile s.filepath (if data = [0x5E, 0x24] then [] else data) s.world with ⟨_ | _, world⟩
  · exact ⟨rfl, rfl⟩
  · exact reply_record env _ { s with gzip := some gzip, content := [], world := world }

theorem act_fileType {datatype : Int} (h : datatype ∈ fileTypes) (data : Bytes) (s : Session P ω) :
    SameRecord s (act env datatype data s).2 := by
  unfold act
  split_ifs with h21 h22 h23 h24
  · exact fileName_record env data s
  · exact fileLength_record env data s
  · exact fileContent_record env data s
  · exact fileWrite_record env s
  · simp [fileTypes, h21, h22, h23, h24] at h

theorem act_command {datatype : Int} (h : datatype ∉ fileTypes) (data : Bytes) (s : Session P ω) :
    act env datatype data s = callOnData env datatype data s := by
  simp only [fileTypes, List.mem_cons, List.not_mem_nil, or_false, not_or] at h
  obtain ⟨h21, h22, h23, h24⟩ := h
  rw [act, if_neg h21, if_neg h22, if_neg h23, if_neg h24]

theorem callOnData_record (datatype : Int) (data : Bytes) (s : Session P ω) :
    (callOnData env datatype data s).2.acted = s.acted ∧
      (callOnData env datatype data s).2.calls = s.calls ++ [(datatype, data)] ∧
      (callOnData env datatype data s).2.binRecvFlag = s.binRecvFlag := by
  unfold callOnData
  dsimp only
  rcases env.onData datatype data s.filepath s.world with ⟨_ | _ | response, world⟩ <;> exact ⟨rfl, rfl, rfl⟩

/-- `on_data` does not raise. -/
def NeverRaises : Prop := ∀ datatype data filepath world, (env.onData datatype data filepath world).1 ≠ none

variable {env} in
theorem callOnData_next (h : NeverRaises env) (datatype : Int) (data : Bytes) (s : Session P ω) :
    (callOnData env datatype data s).1 = .next := by
  unfold callOnData
  dsimp only
  rcases hcall : env.onData datatype data s.filepath s.world with ⟨_ | _ | response, world⟩
  · exact absurd (by rw [hcall]) (h datatype data s.filepath s.world)
  · rfl
  · rfl

theorem act_acted (datatype : Int) (data : Bytes) (s : Session P ω) :
    (act env datatype data s).2.acted = s.acted := by
  by_cases h : datatype ∈ fileTypes
  · exact (act_fileType env h data s).1
  · rw [act_command env h]
    exact (callOnData_record env datatype data s).1

theorem dispatch_acted (data : Bytes) (s : Session P ω) :
    (dispatch env data s).2.acted = s.acted ∨
      ∃ message : Message, message.body = data ∧ (dispatch env data s).2.acted = s.acted ++ [message] := by
  unfold dispatch
  split_ifs with hbin hfour
  · exact Or.inr ⟨.content data, rfl, act_acted env _ _ _⟩
  · exact Or.inl rfl
  · refine Or.inr ⟨.command (decodeInt32 .little (data.take 4)) (data.drop 4), ?_, act_acted env _ _ _⟩
    rw [Message.body, encodeInt32_decodeInt32 _ (by rw [List.length_take, min_eq_left (by omega)]),
      List.take_append_drop]

/-- A message reaches `on_data` once, as what it says, or not at all. -/
theorem dispatch_calls (h : NeverRaises env) (data : Bytes) (s : Session P ω) :
    (dispatch env data s).2.calls = s.calls ∨
      ∃ message, commandBody message = data ∧ (dispatch env data s).1 = .next ∧
        (dispatch env data s).2.calls = s.calls ++ [message] := by
  unfold dispatch
  split_ifs with hbin hfour
  · exact Or.inl (act_fileType env (by decide) _ _).2
  · exact Or.inl rfl
  by_cases htype : decodeInt32 .little (data.take 4) ∈ fileTypes
  · exact Or.inl (act_fileType env htype _ _).2
  · refine Or.inr ⟨(decodeInt32 .little (data.take 4), data.drop 4), ?_, ?_, ?_⟩
    · rw [commandBody, encodeInt32_decodeInt32 _ (by rw [List.length_take, min_eq_left (by omega)]),
        List.take_append_drop]
    · rw [act_command env htype]
      exact callOnData_next h _ _ _
    · rw [act_command env htype]
      exact (callOnData_record env _ _ _).2.1

theorem dispatch_command {datatype : Int} (hlo : -2 ^ 31 ≤ datatype) (hhi : datatype < 2 ^ 31) (data : Bytes)
    {s : Session P ω} (hbin : s.binRecvFlag = false) :
    dispatch env (commandBody (datatype, data)) s =
      act env datatype data { s with acted := s.acted ++ [.command datatype data] } := by
  have hlen : (encodeInt32 .little datatype).length = 4 := encodeInt32_length _ _
  have hfour : ¬(commandBody (datatype, data)).length < 4 := by
    rw [commandBody_length]
    omega
  have hhead : (commandBody (datatype, data)).take 4 = encodeInt32 .little datatype := by
    rw [commandBody, ← hlen, List.take_left]
  have htail : (commandBody (datatype, data)).drop 4 = data := by
    rw [commandBody, ← hlen, List.drop_left]
  have hcommand : ¬ s.binRecvFlag = true := by
    rw [hbin]
    exact Bool.false_ne_true
  unfold dispatch
  rw [if_neg hcommand, if_neg hfour, hhead, htail, decodeInt32_encodeInt32 hlo hhi]

theorem dispatch_frame (h : NeverRaises env) (frame : Frame) {s : Session P ω} (hbin : s.binRecvFlag = false) :
    (dispatch env frame.body s).1 = .next ∧ (dispatch env frame.body s).2.binRecvFlag = false ∧
      (dispatch env frame.body s).2.calls = s.calls ++ [frame.message] := by
  have hdispatch : dispatch env frame.body s = _ := dispatch_command env frame.lower frame.upper frame.payload hbin
  rw [hdispatch, act_command env frame.command]
  obtain ⟨-, hcalls, hflag⟩ := callOnData_record env frame.datatype frame.payload
    { s with acted := s.acted ++ [.command frame.datatype frame.payload] }
  exact ⟨callOnData_next h _ _ _, hflag.trans hbin, hcalls⟩

/-! ### Every command arrives -/

/-- `Fits pos wires segs` : with `pos` bytes of the first frame received, no recv result carries bytes of two
frames, the first one of a frame has at least four bytes, and the last one ends the last frame. -/
def Fits : Nat → List Bytes → List Bytes → Prop
  | _, [], [] => True
  | _, [], _ :: _ => False
  | _, _ :: _, [] => False
  | pos, wire :: wires, seg :: segs =>
    (pos = 0 → 4 ≤ seg.length) ∧
      (pos + seg.length < wire.length ∧ Fits (pos + seg.length) (wire :: wires) segs ∨
        pos + seg.length = wire.length ∧ Fits 0 wires segs)

instance Fits.decidable : ∀ pos wires segs, Decidable (Fits pos wires segs)
  | _, [], [] => isTrue trivial
  | _, [], _ :: _ => isFalse id
  | _, _ :: _, [] => isFalse id
  | pos, wire :: wires, seg :: segs =>
    have := Fits.decidable (pos + seg.length) (wire :: wires) segs
    have := Fits.decidable 0 wires segs
    inferInstanceAs (Decidable ((pos = 0 → 4 ≤ seg.length) ∧
      (pos + seg.length < wire.length ∧ Fits (pos + seg.length) (wire :: wires) segs ∨
        pos + seg.length = wire.length ∧ Fits 0 wires segs)))

def commandWires (messages : List (Int × Bytes)) : List Bytes := messages.map fun message => wire (commandBody message)

theorem commandWires_length (message : Int × Bytes) (messages : List (Int × Bytes)) :
    (commandWires (message :: messages)).flatten.length =
      (wire (commandBody message)).length + (commandWires messages).flatten.length := by
  rw [← List.length_append]
  rfl

theorem handleStep_cases {data : Bytes} (hne : data ≠ []) (r : Reader) (s : Session P ω) :
    handleStep env data r s =
      match r.recv data with
      | .tooShort => (.stop, r, s)
      | .incomplete r => (.next, r, s)
      | .overrun => (.next, .idle, s)
      | .message data => ((dispatch env data s).1, .idle, (dispatch env data s).2) :=
  if_neg hne

/-- The loop on complete messages. -/
def runMessages : List Bytes → Session P ω → Flow × Session P ω
  | [], s => (.next, s)
  | body :: bodies, s =>
    match dispatch env body s with
    | (.next, s) => runMessages bodies s
    | (.stop, s) => (.stop, s)

theorem runMessages_append (bodies bodies' : List Bytes) (s : Session P ω) :
    runMessages env (bodies ++ bodies') s =
      match runMessages env bodies s with
      | (.next, s) => runMessages env bodies' s
      | (.stop, s) => (.stop, s) := by
  induction bodies generalizing s with
  | nil => rfl
  | cons body bodies ih =>
    rw [List.cons_append, runMessages, runMessages]
    rcases dispatch env body s with ⟨_ | _, s'⟩
    · exact ih s'
    · rfl

/-- **Frames that fit their recv results** are dispatched one by one, and leave the reader idle. -/
theorem handleLoop_messages (segs : List Bytes) (bodies : List Bytes) (r : Reader) (s : Session P ω)
    (hne : ∀ seg ∈ segs, seg ≠ []) (hshort : ∀ body ∈ bodies, body.length < 2 ^ 31)
    (hr : Aligned bodies r segs.flatten) (hfits : Fits r.received (bodies.map wire) segs) (more : List Bytes) :
    handleLoop env (segs ++ more) r s =
      match runMessages env bodies s with
      | (.next, s) => handleLoop env more .idle s
      | (.stop, s) => s := by
  induction segs generalizing bodies r s with
  | nil =>
    rcases bodies with _ | ⟨body, bodies⟩
    · rw [hr.eq_idle]
      rfl
    · exact absurd hfits id
  | cons seg segs ih =>
    have hseg := hne seg List.mem_cons_self
    have hne' : ∀ seg ∈ segs, seg ≠ [] := fun x hx => hne x (List.mem_cons_of_mem _ hx)
    rcases bodies with _ | ⟨body, bodies⟩
    · exact absurd hfits id
    obtain ⟨hfour, hfits⟩ := hfits
    rw [List.cons_append, handleLoop, handleStep_cases env hseg]
    rw [List.flatten_cons] at hr
    rcases recv_aligned hr hseg hshort with ⟨-, hzero, hlt⟩ | ⟨body', todo, htodo, hcase⟩
    · exact absurd (hfour hzero) (by omega)
    obtain ⟨rfl, rfl⟩ := List.cons_eq_cons.mp htodo
    rcases hcase with ⟨r', hrecv, hlt, hreceived, hr'⟩ | ⟨hrecv, heq, hmore⟩ | ⟨hrecv, hgt⟩
    · rcases hfits with ⟨-, hfits⟩ | ⟨heq, -⟩
      · rw [hrecv]
        exact ih (body :: bodies) r' s hne' hshort hr' (hreceived ▸ hfits)
      · omega
    · rcases hfits with ⟨hlt, -⟩ | ⟨-, hfits⟩
      · omega
      · rw [hrecv, runMessages]
        dsimp only
        rcases dispatch env body s with ⟨_ | _, s'⟩
        · have hshort' : ∀ b ∈ bodies, b.length < 2 ^ 31 := fun b hb => hshort b (List.mem_cons_of_mem _ hb)
          exact ih bodies .idle s' hne' hshort' (hmore ▸ .between _) hfits
        · rfl
    · rcases hfits with ⟨hlt, -⟩ | ⟨heq, -⟩ <;> omega

variable {env}

theorem runMessages_frames (hraise : NeverRaises env) (frames : List Frame) {s : Session P ω}
    (hbin : s.binRecvFlag = false) :
    ∃ s', runMessages env (frames.map Frame.body) s = (.next, s') ∧ s'.calls = s.calls ++ frames.map Frame.message := by
  induction frames generalizing s with
  | nil => exact ⟨s, rfl, (List.append_nil _).symm⟩
  | cons frame frames ih =>
    obtain ⟨hnext, hbin', hcalls⟩ := dispatch_frame env hraise frame hbin
    rw [List.map_cons, runMessages]
    rcases hdispatch : dispatch env frame.body s with ⟨flow, s'⟩
    rw [hdispatch] at hnext hbin' hcalls
    obtain rfl : flow = .next := hnext
    obtain ⟨s'', hrun, hcalls'⟩ := ih hbin'
    refine ⟨s'', hrun, ?_⟩
    rw [hcalls', hcalls, List.append_assoc]
    rfl

/-- The reader as the loop keeps it: idle, or with less than it waits for. -/
def Reader.Waiting (r : Reader) : Prop := r = .idle ∨ (r.datatotal.length : Int) < r.dataLen

theorem compareLength_waiting (datatotal : Bytes) (dataLen : Int) :
    (∃ r, compareLength datatotal dataLen = .incomplete r ∧ r.Waiting ∧ r.received = 4 + datatotal.length) ∨
    compareLength datatotal dataLen = .message datatotal ∨ compareLength datatotal dataLen = .overrun := by
  unfold compareLength
  split_ifs with hlt heq
  · refine Or.inl ⟨⟨datatotal, dataLen⟩, rfl, Or.inr hlt, ?_⟩
    rw [Reader.received, if_neg (by dsimp only; omega)]
  · exact Or.inr (Or.inl rfl)
  · exact Or.inr (Or.inr rfl)

theorem recv_waiting {r : Reader} (hr : r.Waiting) (data : Bytes) :
    r.recv data = .tooShort ∨ r.recv data = .overrun ∨
    (r.received = 0 → 4 ≤ data.length) ∧
      ((∃ r', r.recv data = .incomplete r' ∧ r'.Waiting ∧ r'.received = r.received + data.length) ∨
        ∃ body, r.recv data = .message body ∧ (wire body).length = r.received + data.length) := by
  have hcompare : r.recv data = .tooShort ∨ ∃ datatotal n, r.recv data = compareLength datatotal n ∧
      4 + datatotal.length = r.received + data.length ∧ (r.received = 0 → 4 ≤ data.length) := by
    rcases hr with rfl | hr
    · by_cases hfour : data.length < 4
      · exact Or.inl (by rw [Reader.recv, Reader.idle, if_pos rfl, if_pos hfour])
      · refine Or.inr ⟨data.drop 4, _, by rw [Reader.recv, Reader.idle, if_pos rfl, if_neg hfour]; rfl, ?_, ?_⟩
        · rw [List.length_drop, Reader.received_idle]
          omega
        · exact fun _ => by omega
    · have hne : r.dataLen ≠ 0 := by omega
      have hreceived : r.received = 4 + r.datatotal.length := by rw [Reader.received, if_neg hne]
      refine Or.inr ⟨r.datatotal ++ data, _, by rw [Reader.recv, if_neg hne], ?_, fun h => by omega⟩
      rw [List.length_append, hreceived, Nat.add_assoc]
  rcases hcompare with hshort | ⟨datatotal, n, hrecv, hlen, hfour⟩
  · exact Or.inl hshort
  rw [hrecv, ← hlen]
  rcases compareLength_waiting datatotal n with hinc | hmsg | hover
  · exact Or.inr (Or.inr ⟨hfour, Or.inl hinc⟩)
  · exact Or.inr (Or.inr ⟨hfour, Or.inr ⟨_, hmsg, wire_length _⟩⟩)
  · exact Or.inr (Or.inl hover)

theorem Fits.pos_lt {pos : Nat} {wire : Bytes} {wires segs : List Bytes} (h : Fits pos (wire :: wires) segs)
    (hne : ∀ seg ∈ segs, seg ≠ []) : pos < wire.length := by
  rcases segs with _ | ⟨seg, segs⟩
  · exact absurd h id
  · have hpos := List.length_pos_of_ne_nil (hne seg List.mem_cons_self)
    rcases h.2 with ⟨hlt, -⟩ | ⟨heq, -⟩ <;> omega

theorem calls_prefix_handleLoop (hraise : NeverRaises env) (segs : List Bytes) (r : Reader) (s : Session P ω) :
    s.calls <+: (handleLoop env segs r s).calls := by
  induction segs generalizing r s with
  | nil => exact List.prefix_rfl
  | cons seg segs ih =>
    by_cases hseg : seg = []
    · rw [handleLoop, handleStep, if_pos hseg]
    rw [handleLoop, handleStep_cases env hseg]
    rcases r.recv seg with _ | r' | body | _
    · exact List.prefix_rfl
    · exact ih r' s
    · have hprefix : s.calls <+: (dispatch env body s).2.calls := by
        rcases dispatch_calls env hraise body s with hsame | ⟨message, -, -, hone⟩
        · rw [hsame]
        · exact ⟨[message], hone.symm⟩
      dsimp only
      rcases (dispatch env body s).1 with _ | _
      · exact hprefix.trans (ih .idle _)
      · exact hprefix
    · exact ih .idle s

theorem handleLoop_calls_cons (hraise : NeverRaises env) (segs : List Bytes) {s s' : Session P ω}
    {message : Int × Bytes} {messages : List (Int × Bytes)} (hone : s'.calls = s.calls ++ [message])
    (hcalls : (handleLoop env segs .idle s').calls = s.calls ++ messages) :
    ∃ messages', messages = message :: messages' ∧ (handleLoop env segs .idle s').calls = s'.calls ++ messages' := by
  obtain ⟨messages', hmessages'⟩ := calls_prefix_handleLoop hraise segs .idle s'
  refine ⟨messages', ?_, hmessages'.symm⟩
  rw [← hmessages', hone, List.append_assoc] at hcalls
  exact (List.append_cancel_left hcalls).symm

/-- **The budget**: the frames of the calls made are no longer than what arrives, and as long only if nothing is
lost. -/
theorem handleLoop_budget (hraise : NeverRaises env) (segs : List Bytes) (r : Reader) (s : Session P ω)
    (messages : List (Int × Bytes)) (hne : ∀ seg ∈ segs, seg ≠ []) (hr : r.Waiting)
    (hcalls : (handleLoop env segs r s).calls = s.calls ++ messages) :
    (commandWires messages).flatten.length ≤ r.received + segs.flatten.length ∧
      ((commandWires messages).flatten.length = r.received + segs.flatten.length →
        Fits r.received (commandWires messages) segs) := by
  induction segs generalizing r s messages with
  | nil =>
    obtain rfl : messages = [] := List.append_right_eq_self.mp hcalls.symm
    exact ⟨Nat.zero_le _, fun _ => trivial⟩
  | cons seg segs ih =>
    have hseg := hne seg List.mem_cons_self
    have hpos := List.length_pos_of_ne_nil hseg
    have hne' : ∀ seg ∈ segs, seg ≠ [] := fun x hx => hne x (List.mem_cons_of_mem _ hx)
    have hlen : (seg :: segs).flatten.length = seg.length + segs.flatten.length := by
      rw [List.flatten_cons, List.length_append]
    -- whatever is lost, it is more than nothing
    have hlost : ∀ s', (handleLoop env segs .idle s').calls = s.calls ++ messages → s'.calls = s.calls →
        (commandWires messages).flatten.length ≤ segs.flatten.length := by
      intro s' h heq
      have := (ih .idle s' messages hne' (Or.inl rfl) (heq.symm ▸ h)).1
      rwa [Reader.received_idle, Nat.zero_add] at this
    have hstop : messages = [] → (commandWires messages).flatten.length = 0 := by
      rintro rfl
      rfl
    rw [handleLoop, handleStep_cases env hseg] at hcalls
    rw [hlen]
    rcases recv_waiting hr seg with hrecv | hrecv | ⟨hfour, ⟨r', hrecv, hr', hreceived⟩ | ⟨body, hrecv, hbody⟩⟩
    · rw [hrecv] at hcalls
      have := hstop (List.append_right_eq_self.mp hcalls.symm)
      exact ⟨by omega, fun h => by omega⟩
    · rw [hrecv] at hcalls
      have := hlost s hcalls rfl
      exact ⟨by omega, fun h => by omega⟩
    · rw [hrecv] at hcalls
      obtain ⟨hle, hfits⟩ := ih r' s messages hne' hr' hcalls
      rw [hreceived] at hle hfits
      refine ⟨by omega, fun h => ?_⟩
      have hfits := hfits (by omega)
      rcases messages with _ | ⟨message, messages⟩
      · have : (commandWires []).flatten.length = 0 := rfl
        omega
      · exact ⟨hfour, Or.inl ⟨hfits.pos_lt hne', hfits⟩⟩
    · rw [hrecv] at hcalls
      dsimp only at hcalls
      rcases dispatch_calls env hraise body s with hsame | ⟨message, rfl, hnext, hone⟩
      · rcases hflow : (dispatch env body s).1 with _ | _
        · rw [hflow] at hcalls
          have := hlost _ hcalls hsame
          exact ⟨by omega, fun h => by omega⟩
        · rw [hflow] at hcalls
          dsimp only at hcalls
          rw [hsame] at hcalls
          have := hstop (List.append_right_eq_self.mp hcalls.symm)
          exact ⟨by omega, fun h => by omega⟩
      · rw [hnext] at hcalls
        dsimp only at hcalls
        obtain ⟨messages', rfl, hcalls'⟩ := handleLoop_calls_cons hraise segs hone hcalls
        obtain ⟨hle, hfits⟩ := ih .idle _ messages' hne' (Or.inl rfl) hcalls'
        rw [Reader.received_idle, Nat.zero_add] at hle hfits
        rw [commandWires_length]
        exact ⟨by omega, fun h => ⟨hfour, Or.inr ⟨hbody.symm, hfits (by omega)⟩⟩⟩

/-- **The commands sent reach `on_data`**, one by one and in order, if and only if no recv result carries bytes of
two frames and the first one of each frame has its four length bytes. -/
theorem handle_calls_iff (env : HandlerEnv P ω) (hraise : NeverRaises env) (frames : List Frame) (segs : List Bytes)
    (world : ω) (hne : ∀ seg ∈ segs, seg ≠ []) (hsegs : segs.flatten = stream (frames.map Frame.body)) :
    (handle env segs world).calls = frames.map Frame.message ↔
      Fits 0 (frames.map fun frame => wire frame.body) segs := by
  have hwires : (frames.map fun frame => wire frame.body) = commandWires (frames.map Frame.message) := by
    rw [commandWires, List.map_map]
    rfl
  rw [hwires]
  constructor
  · intro hcalls
    refine (handleLoop_budget hraise segs .idle (setup env world) _ hne (Or.inl rfl) hcalls).2 ?_
    rw [hsegs, Reader.received_idle, Nat.zero_add, stream, ← hwires, List.map_map]
    rfl
  · intro hfits
    have hshort : ∀ body ∈ frames.map Frame.body, body.length < 2 ^ 31 := by
      intro body hbody
      obtain ⟨frame, -, rfl⟩ := List.mem_map.mp hbody
      exact frame.body_length
    obtain ⟨s, hrun, hcalls⟩ := runMessages_frames hraise frames (s := setup env world) rfl
    have hfits' : Fits 0 ((frames.map Frame.body).map wire) segs := by
      rw [List.map_map]
      exact hwires ▸ hfits
    have hloop := handleLoop_messages env segs (frames.map Frame.body) .idle (setup env world) hne hshort
      (hsegs ▸ Aligned.between _) hfits' []
    rw [List.append_nil, hrun] at hloop
    rw [handle, hloop]
    exact hcalls

/-- A subclass that answers nothing, on a connection and a disk that never fail. -/
def quietEnv : HandlerEnv Unit Unit where
  tmp := ()
  loads _ := some ((), false)
  decompress := some
  sendall _ world := (true, world)
  writeFile _ _ world := (true, world)
  onData _ _ _ world := (some none, world)

/-- Message 4, without a payload. -/
def routesFrame : Frame := ⟨4, [], by decide, by decide, by decide, by decide⟩

/-- Message 1, with payload `x`. -/
def shellFrame : Frame := ⟨1, [0x78], by decide, by decide, by decide, by decide⟩

/-- The second frame comes in two results, the first of them with its length and one more byte. -/
theorem handle_calls_cut :
    (handle quietEnv [[4, 0, 0, 0, 4, 0, 0, 0], [5, 0, 0, 0, 1], [0, 0, 0, 0x78]] ()).calls = [(4, []), (1, [0x78])] :=
  (handle_calls_iff quietEnv (fun _ _ _ _ => nofun) [routesFrame, shellFrame]
    [[4, 0, 0, 0, 4, 0, 0, 0], [5, 0, 0, 0, 1], [0, 0, 0, 0x78]] () (by decide) (by decide)).mpr (by decide)

/-- Two frames in one result: neither reaches `on_data`. -/
theorem handle_calls_two_frames :
    [stream [routesFrame.body, shellFrame.body]].flatten = stream ([routesFrame, shellFrame].map Frame.body) ∧
      NeverRaises quietEnv ∧
      (handle quietEnv [stream [routesFrame.body, shellFrame.body]] ()).calls ≠
        [routesFrame, shellFrame].map Frame.message :=
  ⟨by decide, fun _ _ _ _ => nofun, by decide⟩

/-! ### Only bodies of frames are acted on -/

/-- The bytes received end where a frame ends. -/
def EndsFrame (bodies : List Bytes) (past : Bytes) : Prop := ∃ k, past = stream (bodies.take k)

/-- Whenever the loop drops a recv result that goes beyond the frame in progress, this result ends where a frame
ends; `past` are the bytes received before. -/
def OverrunsEndFrames (env : HandlerEnv P ω) (bodies : List Bytes) :
    Bytes → List Bytes → Reader → Session P ω → Prop
  | _, [], _, _ => True
  | past, data :: segs, r, s =>
    (r.recv data = .overrun → EndsFrame bodies (past ++ data)) ∧
      match handleStep env data r s with
      | (.next, r, s) => OverrunsEndFrames env bodies (past ++ data) segs r s
      | (.stop, _, _) => True

theorem handleLoop_acted {bodies : List Bytes} (hshort : ∀ body ∈ bodies, body.length < 2 ^ 31) (segs : List Bytes)
    (past : Bytes) (todo : List Bytes) (r : Reader) (s : Session P ω) (htodo : todo <:+ bodies)
    (hr : Aligned todo r segs.flatten) (hpast : past ++ segs.flatten = stream bodies)
    (hends : OverrunsEndFrames env bodies past segs r s) (hacted : ∀ message ∈ s.acted, message.body ∈ bodies) :
    ∀ message ∈ (handleLoop env segs r s).acted, message.body ∈ bodies := by
  induction segs generalizing past todo r s with
  | nil => exact hacted
  | cons seg segs ih =>
    obtain ⟨hover, hends⟩ := hends
    by_cases hseg : seg = []
    · rw [handleLoop, handleStep, if_pos hseg]
      exact hacted
    rw [List.flatten_cons] at hr hpast
    rw [← List.append_assoc] at hpast
    rw [handleStep_cases env hseg] at hends
    rw [handleLoop, handleStep_cases env hseg]
    rcases recv_aligned hr hseg (fun body hbody => hshort body (htodo.subset hbody)) with
      ⟨hrecv, -, -⟩ | ⟨body, todo', rfl, ⟨r', hrecv, -, -, hr'⟩ | ⟨hrecv, -, hmore⟩ | ⟨hrecv, -⟩⟩
    · rw [hrecv]
      exact hacted
    · rw [hrecv] at hends ⊢
      exact ih _ _ r' s htodo hr' hpast hends hacted
    · -- a message: the body of the frame in progress
      rw [hrecv] at hends ⊢
      have hbody : body ∈ bodies := htodo.subset List.mem_cons_self
      have hacted' : ∀ message ∈ (dispatch env body s).2.acted, message.body ∈ bodies := by
        rcases dispatch_acted env body s with hsame | ⟨message, hmessage, hone⟩
        · rwa [hsame]
        · intro m hm
          rw [hone, List.mem_append, List.mem_singleton] at hm
          rcases hm with hm | rfl
          · exact hacted m hm
          · exact hmessage ▸ hbody
      dsimp only at hends ⊢
      rcases hflow : (dispatch env body s).1 with _ | _
      · rw [hflow] at hends
        exact ih _ todo' .idle _ ((List.suffix_cons body todo').trans htodo) (hmore ▸ .between _) hpast hends hacted'
      · exact hacted'
    · -- all of it is dropped; what follows starts a frame
      rw [hrecv] at hends ⊢
      obtain ⟨k, hk⟩ := hover hrecv
      have hmore : segs.flatten = stream (bodies.drop k) := by
        rw [hk] at hpast
        nth_rewrite 2 [← List.take_append_drop k bodies] at hpast
        rw [stream_append] at hpast
        exact List.append_cancel_left hpast
      exact ih _ (bodies.drop k) .idle s (List.drop_suffix k bodies) (hmore ▸ .between _) hpast hends hacted

/-- **Every message acted on is the body of a frame that was sent**, in every run in which each recv result that
goes beyond the frame in progress ends where a frame ends. -/
theorem handle_acted_sent (env : HandlerEnv P ω) (bodies segs : List Bytes) (world : ω)
    (hshort : ∀ body ∈ bodies, body.length < 2 ^ 31) (hsegs : segs.flatten = stream bodies)
    (hends : OverrunsEndFrames env bodies [] segs .idle (setup env world)) :
    ∀ message ∈ (handle env segs world).acted, message.body ∈ bodies :=
  handleLoop_acted hshort segs [] bodies .idle (setup env world) List.suffix_rfl (hsegs ▸ .between _) hsegs hends nofun

/-- The first result ends behind the second frame; the third frame is read as sent. -/
theorem handle_acted_sent_overrun :
    let bodies := [routesFrame.body, shellFrame.body, shellFrame.body]
    let segs := [stream [routesFrame.body, shellFrame.body], wire shellFrame.body]
    segs.flatten = stream bodies ∧ ∀ message ∈ (handle quietEnv segs ()).acted, message.body ∈ bodies :=
  ⟨by decide, handle_acted_sent quietEnv [routesFrame.body, shellFrame.body, shellFrame.body]
    [stream [routesFrame.body, shellFrame.body], wire shellFrame.body] () (by decide) (by decide)
    ⟨fun _ => ⟨2, by decide⟩, fun h => absurd h (by decide), trivial⟩⟩

/-- Message 3, with a payload that holds a frame of message 1. -/
def downloadFrame : Frame := ⟨3, wire shellFrame.body, by decide, by decide, by decide, by decide⟩

/-- The first result ends where that payload begins: message 1 is acted on, and was not sent. -/
theorem handle_acted_payload :
    let segs := [wire routesFrame.body ++ (wire downloadFrame.body).take 8, (wire downloadFrame.body).drop 8]
    segs.flatten = stream [routesFrame.body, downloadFrame.body] ∧
      Message.command 1 [0x78] ∈ (handle quietEnv segs ()).acted ∧
      (Message.command 1 [0x78]).body ∉ [routesFrame.body, downloadFrame.body] := by
  decide

end SocketServer.Tcp
