import SocketServer.Tcp.Transfer

/-!
# The order of a file transfer

Messages 21 to 24 may come in any order and any number of times, and message 24 writes whatever the content is then.
`progress` is what the messages themselves say: the length that the last message 22 announced, and the content received
since then and since the last message 24.

* `exists_whole_iff` : in which orders of messages a content is whole;
* `run_tracks` : in every run, the content and the length of the handler are those of `progress`;
* `writes_whole_iff` : when message 24 overwrites the file with a whole content or leaves it as it was.
-/

namespace SocketServer.Tcp

open Bytes

variable {P ω : Type} (env : HandlerEnv P ω)

/-! ### What the messages say -/

/-- The length announced last, and the content received since then and since it was last written. -/
structure Progress where
  announced : Option Nat
  received : Option Bytes
  deriving DecidableEq, Repr

def Progress.receive (p : Progress) (data : Bytes) : Progress :=
  { p with received := some (p.received.getD [] ++ data) }

/-- A message 22 with another number of bytes than eight announces nothing. -/
def Progress.note (p : Progress) : Message → Progress
  | .content data => p.receive data
  | .command datatype data =>
    if datatype = 22 then
      if data.length = 8 then ⟨some (decode .little data), none⟩ else p
    else if datatype = 23 then p.receive data
    else if datatype = 24 then { p with received := none }
    else p

def progress (messages : List Message) : Progress := messages.foldl Progress.note ⟨none, none⟩

/-- The messages have brought a content of the announced length that has not been written yet. -/
def Whole (messages : List Message) (content : Bytes) : Prop :=
  progress messages = ⟨some content.length, some content⟩

/-! ### The order of the messages -/

/-- A message 22 of eight bytes. -/
def Message.announces : Message → Bool
  | .command datatype data => datatype = 22 && data.length = 8
  | .content _ => false

/-- A message 24. -/
def Message.writes : Message → Bool
  | .command datatype _ => datatype = 24
  | .content _ => false

/-- The content that a message brings. -/
def Message.payload : Message → Option Bytes
  | .command datatype data => if datatype = 23 then some data else none
  | .content data => some data

/-- The order `22, 23, 24`: behind the last message 22, and behind every message 24 since then, there are messages with
content, and their lengths add up to the announced one. -/
def InOrder (messages : List Message) : Prop :=
  ∃ before length between after,
    messages = before ++ .command 22 length :: (between ++ after) ∧ length.length = 8 ∧
    (∀ m ∈ between ++ after, m.announces = false) ∧
    (between = [] ∨ ∃ earlier data, between = earlier ++ [.command 24 data]) ∧
    (∀ m ∈ after, m.writes = false) ∧ after.filterMap Message.payload ≠ [] ∧
    (after.filterMap Message.payload).flatten.length = decode .little length

theorem progress_snoc (messages : List Message) (message : Message) :
    progress (messages ++ [message]) = (progress messages).note message := by
  rw [progress, List.foldl_append]
  rfl

theorem Progress.note_announces {p : Progress} {length : Bytes} (h : length.length = 8) :
    p.note (.command 22 length) = ⟨some (decode .little length), none⟩ := by
  rw [Progress.note, if_pos rfl, if_pos h]

theorem Progress.note_eq {p : Progress} {m : Message} (h : m.announces = false) :
    p.note m = ⟨p.announced, if m.writes then none else (m.payload.map (p.received.getD [] ++ ·)).or p.received⟩ := by
  cases m with
  | content data => rfl
  | command datatype data =>
    rw [Progress.note]
    by_cases h22 : datatype = 22
    · subst h22
      have height : data.length ≠ 8 := by simpa [Message.announces] using h
      rw [if_pos rfl, if_neg height]
      rfl
    rw [if_neg h22]
    by_cases h23 : datatype = 23
    · subst h23
      rfl
    rw [if_neg h23]
    by_cases h24 : datatype = 24
    · subst h24
      rfl
    · simp [Message.writes, Message.payload, h23, h24]

/-- What a list of contents makes of what has been received. -/
def receiveAll (received : Option Bytes) (contents : List Bytes) : Option Bytes :=
  if contents = [] then received else some (received.getD [] ++ contents.flatten)

theorem foldl_note_payloads {p : Progress} {after : List Message} (hannounces : ∀ m ∈ after, m.announces = false)
    (hwrites : ∀ m ∈ after, m.writes = false) :
    after.foldl Progress.note p = ⟨p.announced, receiveAll p.received (after.filterMap Message.payload)⟩ := by
  induction after generalizing p with
  | nil => rfl
  | cons m after ih =>
    obtain ⟨hm, hannounces⟩ := List.forall_mem_cons.mp hannounces
    obtain ⟨hm', hwrites⟩ := List.forall_mem_cons.mp hwrites
    rw [List.foldl_cons, Progress.note_eq hm, hm', ih hannounces hwrites]
    cases hpayload : m.payload with
    | none => rw [List.filterMap_cons_none hpayload]; rfl
    | some data =>
      rw [List.filterMap_cons_some hpayload]
      by_cases hnil : after.filterMap Message.payload = []
      · simp [receiveAll, hnil]
      · simp [receiveAll, hnil]

theorem foldl_note_announced {p : Progress} {messages : List Message} (h : ∀ m ∈ messages, m.announces = false) :
    (messages.foldl Progress.note p).announced = p.announced := by
  induction messages generalizing p with
  | nil => rfl
  | cons m messages ih =>
    obtain ⟨hm, hmessages⟩ := List.forall_mem_cons.mp h
    rw [List.foldl_cons, ih hmessages, Progress.note_eq hm]

/-- What has been received behind a message 22 and the messages 24 that follow it. -/
theorem progress_order {before between after : List Message} {length : Bytes} (hlength : length.length = 8)
    (hannounces : ∀ m ∈ between ++ after, m.announces = false)
    (hbetween : between = [] ∨ ∃ earlier data, between = earlier ++ [.command 24 data])
    (hwrites : ∀ m ∈ after, m.writes = false) :
    progress (before ++ .command 22 length :: (between ++ after)) =
      ⟨some (decode .little length), receiveAll none (after.filterMap Message.payload)⟩ := by
  obtain ⟨hquiet, hquiet'⟩ := List.forall_mem_append.mp hannounces
  rw [progress, List.foldl_append, List.foldl_cons, Progress.note_announces hlength, List.foldl_append]
  have hmark : between.foldl Progress.note ⟨some (decode .little length), none⟩ =
      ⟨some (decode .little length), none⟩ := by
    rcases hbetween with rfl | ⟨earlier, data, rfl⟩
    · rfl
    · rw [List.foldl_append]
      have hearlier := foldl_note_announced (p := ⟨some (decode .little length), none⟩)
        (List.forall_mem_append.mp hquiet).1
      rw [List.foldl_cons, List.foldl_nil, Progress.note_eq rfl, hearlier]
      rfl
  rw [hmark, foldl_note_payloads hquiet' hwrites]

theorem exists_order {messages : List Message} {n : Nat} (h : (progress messages).announced = some n) :
    ∃ before length between after, messages = before ++ .command 22 length :: (between ++ after) ∧
      length.length = 8 ∧ (∀ m ∈ between ++ after, m.announces = false) ∧
      (between = [] ∨ ∃ earlier data, between = earlier ++ [.command 24 data]) ∧
      ∀ m ∈ after, m.writes = false := by
  induction messages using List.reverseRecOn with
  | nil => cases h
  | append_singleton messages m ih =>
    rw [progress_snoc] at h
    cases hannounces : m.announces with
    | true =>
      match m, hannounces with
      | .command datatype length, hannounces =>
        obtain ⟨rfl, height⟩ : datatype = 22 ∧ length.length = 8 := by simpa [Message.announces] using hannounces
        exact ⟨messages, length, [], [], rfl, height, List.forall_mem_nil _, .inl rfl, List.forall_mem_nil _⟩
    | false =>
      rw [Progress.note_eq hannounces] at h
      obtain ⟨before, length, between, after, rfl, height, hquiet, hbetween, hafter⟩ := ih h
      have hquiet' : ∀ x ∈ between ++ after ++ [m], x.announces = false :=
        List.forall_mem_append.mpr ⟨hquiet, List.forall_mem_singleton.mpr hannounces⟩
      cases hwrites : m.writes with
      | true =>
        match m, hwrites with
        | .command datatype data, hwrites =>
          obtain rfl : datatype = 24 := by simpa [Message.writes] using hwrites
          refine ⟨before, length, between ++ after ++ [.command 24 data], [], by simp, height, ?_,
            .inr ⟨_, data, rfl⟩, List.forall_mem_nil _⟩
          rwa [List.append_nil]
      | false =>
        refine ⟨before, length, between, after ++ [m], by simp, height, ?_, hbetween, ?_⟩
        · rwa [← List.append_assoc]
        · exact List.forall_mem_append.mpr ⟨hafter, List.forall_mem_singleton.mpr hwrites⟩

/-- **When a content is whole**: when the messages came in order. -/
theorem exists_whole_iff {messages : List Message} : (∃ content, Whole messages content) ↔ InOrder messages := by
  constructor
  · rintro ⟨content, hwhole⟩
    obtain ⟨before, length, between, after, rfl, height, hquiet, hbetween, hafter⟩ :=
      exists_order (n := content.length) (by rw [hwhole])
    rw [Whole, progress_order height hquiet hbetween hafter, Progress.mk.injEq, Option.some_inj] at hwhole
    obtain ⟨hlength, hreceived⟩ := hwhole
    refine ⟨before, length, between, after, rfl, height, hquiet, hbetween, hafter, fun hnil => ?_, ?_⟩
    · rw [receiveAll, if_pos hnil] at hreceived
      cases hreceived
    · unfold receiveAll at hreceived
      split_ifs at hreceived
      rw [hlength, ← Option.some.inj hreceived]
      rfl
  · rintro ⟨before, length, between, after, rfl, height, hquiet, hbetween, hafter, hne, hlength⟩
    refine ⟨(after.filterMap Message.payload).flatten, ?_⟩
    rw [Whole, progress_order height hquiet hbetween hafter, receiveAll, if_neg hne, ← hlength]
    rfl

/-! ### What message 24 writes -/

/-- A content as it goes to disk, `none` if it does not get there. -/
def decoded (gzip : Option Bool) (content : Bytes) : Option Bytes :=
  match gzip with
  | none => none
  | some gzip =>
    (if gzip then env.decompress content else some content).map fun data => if data = [0x5E, 0x24] then [] else data

/-- A disk, on which every call of `open` or `write` may fail: `file` is what a path holds, and `opened` are the paths
that have been opened for writing so far, each with the bytes for it. -/
structure Disk (env : HandlerEnv P ω) (file : ω → P → Option Bytes) (opened : ω → List (P × Bytes)) : Prop where
  sendall : ∀ data world,
    file (env.sendall data world).2 = file world ∧ opened (env.sendall data world).2 = opened world
  writeFile : ∀ path data world,
    ((env.writeFile path data world).1 = false ∧ file (env.writeFile path data world).2 = file world ∧
        opened (env.writeFile path data world).2 = opened world) ∨
      opened (env.writeFile path data world).2 = opened world ++ [(path, data)] ∧
        (∀ other, other ≠ path → file (env.writeFile path data world).2 other = file world other) ∧
        ((env.writeFile path data world).1 = true → file (env.writeFile path data world).2 path = some data)

section

variable (file : ω → P → Option Bytes) (opened : ω → List (P × Bytes))

/-- A message 24 leaves all files as they were, or it overwrites the one at `filepath`, and no other, with the decoded
form of a whole content. -/
def WritesWhole (s : Session P ω) (data : Bytes) : Prop :=
  let out := dispatch env (commandBody (24, data)) s
  (opened out.2.world = opened s.world ∧ file out.2.world = file s.world) ∨
    ∃ content bytes, Whole s.acted content ∧ decoded env s.gzip content = some bytes ∧
      opened out.2.world = opened s.world ++ [(s.filepath, bytes)] ∧
      (∀ other, other ≠ s.filepath → file out.2.world other = file s.world other) ∧
      (out.1 = .next → file out.2.world s.filepath = some bytes)

/-- The content decodes, and the file can be opened. -/
def Opens (s : Session P ω) : Prop :=
  ∃ bytes, decoded env s.gzip s.content = some bytes ∧
    opened (env.writeFile s.filepath bytes s.world).2 ≠ opened s.world

end

theorem fileWrite_eq (s : Session P ω) :
    fileWrite env s =
      match decoded env s.gzip s.content with
      | none => (.stop, s)
      | some data =>
        match env.writeFile s.filepath data s.world with
        | (false, world) => (.stop, { s with world := world })
        | (true, world) => reply env [0x32, 0x34, 0x20, 0x6F, 0x6B] { s with content := [], world := world } := by
  unfold fileWrite decoded
  rcases s.gzip with _ | gzip
  · rfl
  · dsimp only
    cases (if gzip then env.decompress s.content else some s.content) <;> rfl

/-! ### The state follows the messages -/

/-- The content and the length of the handler are those of the messages it has acted on. -/
structure Tracks (s : Session P ω) (p : Progress) : Prop where
  content : s.content = p.received.getD []
  length : s.length = p.announced.getD 0

/-- The two fields are those of `s`. -/
def SameContent (s s' : Session P ω) : Prop := s'.content = s.content ∧ s'.length = s.length

theorem reply_content (data : Bytes) (s : Session P ω) : SameContent s (reply env data s).2 := by
  unfold reply
  rcases env.sendall data s.world with ⟨_ | _, world⟩ <;> exact ⟨rfl, rfl⟩

theorem fileName_content (data : Bytes) (s : Session P ω) : SameContent s (fileName env data s).2 := by
  unfold fileName
  rcases env.loads data with _ | ⟨filepath, gzip⟩
  · exact ⟨rfl, rfl⟩
  · exact reply_content env _ { s with filepath := filepath, gzip := some gzip }

theorem callOnData_content (datatype : Int) (data : Bytes) (s : Session P ω) :
    SameContent s (callOnData env datatype data s).2 := by
  unfold callOnData
  dsimp only
  rcases env.onData datatype data s.filepath s.world with ⟨_ | _ | response, world⟩ <;> exact ⟨rfl, rfl⟩

theorem fileLength_content {data : Bytes} {s : Session P ω} (hnext : (fileLength env data s).1 = .next) :
    (fileLength env data s).2.content = (if data.length = 8 then [] else s.content) ∧
      (fileLength env data s).2.length = if data.length = 8 then decode .little data else s.length := by
  by_cases height : data.length = 8
  · rw [fileLength, if_neg (by omega), if_neg (by omega), if_pos height, if_pos height]
    exact reply_content env _
      { s with length := decode .little data, content := [], binRecvFlag := true, bufsize := 102400000 }
  · rw [if_neg height, if_neg height]
    by_cases hshort : data.length < 8
    · rw [fileLength, if_pos hshort]
      exact ⟨rfl, rfl⟩
    · rw [fileLength, if_neg hshort, if_pos height] at hnext
      cases hnext

theorem fileContent_content (data : Bytes) (s : Session P ω) :
    (fileContent env data s).2.content = s.content ++ data ∧ (fileContent env data s).2.length = s.length := by
  unfold fileContent
  dsimp only
  split_ifs
  · exact reply_content env _ { s with content := s.content ++ data, bufsize := 1024, binRecvFlag := false }
  · exact ⟨rfl, rfl⟩
  · exact ⟨rfl, rfl⟩

theorem fileWrite_content {s : Session P ω} (hnext : (fileWrite env s).1 = .next) :
    (fileWrite env s).2.content = [] ∧ (fileWrite env s).2.length = s.length := by
  rw [fileWrite_eq] at hnext ⊢
  rcases hdecoded : decoded env s.gzip s.content with _ | data
  · rw [hdecoded] at hnext
    cases hnext
  rw [hdecoded] at hnext
  dsimp only at hnext ⊢
  rcases hwrite : env.writeFile s.filepath data s.world with ⟨_ | _, world⟩
  · rw [hwrite] at hnext
    cases hnext
  · exact reply_content env _ { s with content := [], world := world }

theorem act_tracks {datatype : Int} {data : Bytes} {s : Session P ω} {p : Progress} (h : Tracks s p)
    (hnext : (act env datatype data s).1 = .next) :
    Tracks (act env datatype data s).2 (p.note (.command datatype data)) := by
  have hsame (s' : Session P ω) (hs : SameContent s s') : Tracks s' p := ⟨hs.1.trans h.content, hs.2.trans h.length⟩
  rw [Progress.note]
  by_cases h21 : datatype = 21
  · subst h21
    exact hsame _ (fileName_content env data s)
  by_cases h22 : datatype = 22
  · subst h22
    obtain ⟨hcontent, hlength⟩ := fileLength_content env hnext
    rw [if_pos rfl]
    by_cases height : data.length = 8
    · rw [if_pos height] at hcontent hlength ⊢
      exact ⟨hcontent, hlength⟩
    · rw [if_neg height] at hcontent hlength ⊢
      exact hsame _ ⟨hcontent, hlength⟩
  by_cases h23 : datatype = 23
  · subst h23
    obtain ⟨hcontent, hlength⟩ := fileContent_content env data s
    rw [if_neg h22, if_pos rfl]
    exact ⟨hcontent.trans (by rw [h.content]; rfl), hlength.trans h.length⟩
  by_cases h24 : datatype = 24
  · subst h24
    obtain ⟨hcontent, hlength⟩ := fileWrite_content env hnext
    rw [if_neg h22, if_neg h23, if_pos rfl]
    exact ⟨hcontent, hlength.trans h.length⟩
  · rw [if_neg h22, if_neg h23, if_neg h24]
    have hact : act env datatype data s = callOnData env datatype data s := by
      rw [act, if_neg h21, if_neg h22, if_neg h23, if_neg h24]
    rw [hact]
    exact hsame _ (callOnData_content env datatype data s)

theorem dispatch_tracks {body : Bytes} {s : Session P ω} (h : Tracks s (progress s.acted))
    (hnext : (dispatch env body s).1 = .next) :
    Tracks (dispatch env body s).2 (progress (dispatch env body s).2.acted) := by
  by_cases hbin : s.binRecvFlag = true
  · rw [dispatch, if_pos hbin] at hnext ⊢
    rw [act_acted, progress_snoc]
    have hstart : Tracks { s with acted := s.acted ++ [.content body] } (progress s.acted) := ⟨h.content, h.length⟩
    exact act_tracks env hstart hnext
  · by_cases hfour : body.length < 4
    · rw [dispatch, if_neg hbin, if_pos hfour]
      exact h
    · rw [dispatch, if_neg hbin, if_neg hfour] at hnext ⊢
      rw [act_acted, progress_snoc]
      exact act_tracks env ⟨h.content, h.length⟩ hnext

/-- **In every run** the handler keeps what the messages say. -/
theorem run_tracks {bodies : List Bytes} {s s' : Session P ω} (h : Tracks s (progress s.acted))
    (hrun : runMessages env bodies s = (.next, s')) : Tracks s' (progress s'.acted) := by
  induction bodies generalizing s with
  | nil =>
    obtain rfl : s = s' := (Prod.mk.inj hrun).2
    exact h
  | cons body bodies ih =>
    rw [runMessages] at hrun
    rcases hdispatch : dispatch env body s with ⟨_ | _, s₁⟩
    · rw [hdispatch] at hrun
      have hnext : (dispatch env body s).1 = .next := by rw [hdispatch]
      have hstep := dispatch_tracks env h hnext
      rw [hdispatch] at hstep
      exact ih hstep hrun
    · rw [hdispatch] at hrun
      cases hrun

theorem Tracks.whole_content {s : Session P ω} {content : Bytes} (h : Tracks s (progress s.acted))
    (hwhole : Whole s.acted content) : s.content = content := by
  have hcontent := h.content
  rw [hwhole] at hcontent
  exact hcontent

/-! ### The file -/

theorem dispatch_write_world {s : Session P ω} (hmode : s.binRecvFlag = false) (data : Bytes) :
    match decoded env s.gzip s.content with
    | none => (dispatch env (commandBody (24, data)) s).2.world = s.world
    | some bytes =>
      let call := env.writeFile s.filepath bytes s.world
      (dispatch env (commandBody (24, data)) s).2.world =
          (if call.1 then (env.sendall [0x32, 0x34, 0x20, 0x6F, 0x6B] call.2).2 else call.2) ∧
        ((dispatch env (commandBody (24, data)) s).1 = .next → call.1 = true) := by
  rw [dispatch_command env (by decide) (by decide) _ hmode, act, if_neg (by decide), if_neg (by decide),
    if_neg (by decide), if_pos rfl, fileWrite_eq]
  dsimp only
  rcases decoded env s.gzip s.content with _ | bytes
  · rfl
  dsimp only
  rcases env.writeFile s.filepath bytes s.world with ⟨_ | _, world⟩
  · exact ⟨rfl, fun h => by cases h⟩
  · refine ⟨?_, fun _ => rfl⟩
    unfold reply
    dsimp only
    rcases env.sendall [0x32, 0x34, 0x20, 0x6F, 0x6B] world with ⟨_ | _, world'⟩ <;> rfl

section

variable {file : ω → P → Option Bytes} {opened : ω → List (P × Bytes)} {env}

theorem Disk.answer (hdisk : Disk env file opened) (answers : Bool) (data : Bytes) (world : ω) :
    file (if answers then (env.sendall data world).2 else world) = file world ∧
      opened (if answers then (env.sendall data world).2 else world) = opened world := by
  cases answers with
  | false => exact ⟨rfl, rfl⟩
  | true => exact hdisk.sendall data world

/-- **What message 24 does to the file**, in any state that frames of any types lead to: it overwrites it with a whole
content or leaves everything as it was, if and only if it cannot open the file or comes in order. -/
theorem writes_whole_iff (hdisk : Disk env file opened) (bodies : List Bytes) (world : ω) {s : Session P ω}
    (hrun : runMessages env bodies (setup env world) = (.next, s)) (hmode : s.binRecvFlag = false) (data : Bytes) :
    WritesWhole env file opened s data ↔ (Opens env opened s → InOrder s.acted) := by
  have htracks : Tracks s (progress s.acted) := run_tracks env ⟨rfl, rfl⟩ hrun
  have hworld := dispatch_write_world env hmode data
  unfold WritesWhole Opens
  rcases hdecoded : decoded env s.gzip s.content with _ | bytes
  · rw [hdecoded] at hworld
    dsimp only at hworld ⊢
    rw [hworld]
    refine iff_of_true (.inl ⟨rfl, rfl⟩) ?_
    rintro ⟨bytes, hnone, -⟩
    cases hnone
  rw [hdecoded] at hworld
  obtain ⟨hout, hnext⟩ := hworld
  obtain ⟨hfile, hopened⟩ := hdisk.answer (env.writeFile s.filepath bytes s.world).1 [0x32, 0x34, 0x20, 0x6F, 0x6B]
    (env.writeFile s.filepath bytes s.world).2
  dsimp only
  rw [hout, hfile, hopened]
  rcases hdisk.writeFile s.filepath bytes s.world with ⟨-, hsame, hclosed⟩ | ⟨hjournal, hothers, hheld⟩
  · refine iff_of_true (.inl ⟨hclosed, hsame⟩) ?_
    rintro ⟨bytes', hbytes', hopen⟩
    obtain rfl := Option.some.inj hbytes'
    exact absurd hclosed hopen
  have hne : opened s.world ++ [(s.filepath, bytes)] ≠ opened s.world := by simp
  rw [hjournal, ← exists_whole_iff]
  constructor
  · rintro (⟨hsame, -⟩ | ⟨content, bytes', hwhole, -⟩) -
    · exact absurd hsame hne
    · exact ⟨content, hwhole⟩
  · intro horder
    obtain ⟨content, hwhole⟩ := horder ⟨bytes, rfl, hjournal ▸ hne⟩
    refine .inr ⟨content, bytes, hwhole, ?_, rfl, hothers, fun hgoes => hheld (hnext hgoes)⟩
    rw [← htracks.whole_content hwhole]
    exact hdecoded

end

/-- `diskEnv` with a record of what has been opened. -/
def journalEnv : HandlerEnv Str ((List Bytes × (Str → Option Bytes)) × List (Str × Bytes)) where
  tmp := diskEnv.tmp
  loads := diskEnv.loads
  decompress := diskEnv.decompress
  sendall data world := (true, (diskEnv.sendall data world.1).2, world.2)
  writeFile path data world := (true, (diskEnv.writeFile path data world.1).2, world.2 ++ [(path, data)])
  onData _ _ _ world := (some none, world)

theorem journalEnv_disk : Disk journalEnv (fun world => world.1.2) Prod.snd where
  sendall _ _ := ⟨rfl, rfl⟩
  writeFile path data world := by
    refine .inr ⟨rfl, fun other hother => ?_, fun _ => ?_⟩
    · exact Function.update_of_ne hother _ _
    · exact diskEnv_works.file_writeFile path data world.1 trivial

/-- In the documented order: message 24 may write `hi`. -/
theorem writes_whole_gzip :
    ∃ s, runMessages journalEnv (gzipTransfer.bodies.take 3) (setup journalEnv (([], fun _ => none), [])) =
        (.next, s) ∧
      WritesWhole journalEnv (fun world => world.1.2) Prod.snd s [] :=
  ⟨_, rfl, (writes_whole_iff journalEnv_disk (gzipTransfer.bodies.take 3) (([], fun _ => none), []) rfl rfl []).mpr
    fun _ => ⟨[.command 21 gzipName], encode .little 8 22, [], [.content gzipHi], rfl, rfl, by decide, .inl rfl,
      by decide, by decide, by decide⟩⟩

/-- Message 24 right after message 21: it empties the file, and no length has been announced. -/
theorem writes_unannounced :
    ∃ s, runMessages journalEnv [commandBody (21, plainName)] (setup journalEnv (([], fun _ => some [1]), [])) =
        (.next, s) ∧
      (dispatch journalEnv (commandBody (24, [])) s).2.world.1.2 ['a'] = some [] ∧
      ¬ WritesWhole journalEnv (fun world => world.1.2) Prod.snd s [] := by
  refine ⟨_, rfl, rfl, ?_⟩
  rintro (⟨hopened, -⟩ | ⟨content, bytes, hwhole, -⟩)
  · cases hopened
  · cases hwhole

end SocketServer.Tcp
