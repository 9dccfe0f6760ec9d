import Mathlib.Logic.Function.Basic
import SocketServer.Lib.Text
import SocketServer.Tcp.Framing

/-!
# File transfers

A file is sent in four frames: its name (21), its length (22), its content, which has no type and is told from a
command by `bin_recv_flag` alone, and the order to write it (24).

`handle_transfers` : over a connection and a disk that work, every transfer is answered and stores exactly its content,
after any number of transfers before it, however the frames are cut into recv results of their own.
-/

namespace SocketServer.Tcp

open Bytes

/-! ### What lies behind the handler -/

variable {P ω : Type}

/-- A connection on which everything is sent, and a disk on which writable files can be written; `sent` and `file` say
what has been sent and what a file holds. -/
structure Works (env : HandlerEnv P ω) (sent : ω → List Bytes) (file : ω → P → Option Bytes) (writable : P → Prop) :
    Prop where
  sendall : ∀ data world, (env.sendall data world).1 = true
  sent_sendall : ∀ data world, sent (env.sendall data world).2 = sent world ++ [data]
  file_sendall : ∀ data world, file (env.sendall data world).2 = file world
  writeFile : ∀ path data world, writable path → (env.writeFile path data world).1 = true
  sent_writeFile : ∀ path data world, sent (env.writeFile path data world).2 = sent world
  file_writeFile : ∀ path data world, writable path → file (env.writeFile path data world).2 path = some data

/-- A file to send: `name` is the JSON of its path and its flag, and `payload` its content, compressed with the flag. -/
structure Transfer (env : HandlerEnv P ω) where
  filepath : P
  gzip : Bool
  content : Bytes
  name : Bytes
  payload : Bytes
  loads : env.loads name = some (filepath, gzip)
  unpacks : (if gzip then env.decompress payload else some payload) = some content
  nameShort : name.length + 4 < 2 ^ 31
  payloadShort : payload.length < 2 ^ 31

variable {env : HandlerEnv P ω}

namespace Transfer

/-- The bodies of the four frames. -/
def bodies (u : Transfer env) : List Bytes :=
  [commandBody (21, u.name), commandBody (22, encode .little 8 u.payload.length), u.payload, commandBody (24, [])]

/-- `^$` stands for an empty file. -/
def stored (u : Transfer env) : Bytes := if u.content = [0x5E, 0x24] then [] else u.content

/-- `21 ok`, `22 ok`, `23 ok` and `24 ok`. -/
def replies : List Bytes :=
  [[0x32, 0x31, 0x20, 0x6F, 0x6B], [0x32, 0x32, 0x20, 0x6F, 0x6B], [0x32, 0x33, 0x20, 0x6F, 0x6B],
    [0x32, 0x34, 0x20, 0x6F, 0x6B]]

theorem bodies_short (u : Transfer env) : ∀ body ∈ u.bodies, body.length < 2 ^ 31 := by
  have hname := u.nameShort
  have hpayload := u.payloadShort
  intro body hbody
  simp only [bodies, List.mem_cons, List.not_mem_nil, or_false] at hbody
  rcases hbody with rfl | rfl | rfl | rfl
  · rw [commandBody_length]
    dsimp only
    omega
  · rw [commandBody_length, encode_length]
    decide
  · exact hpayload
  · decide

end Transfer

/-! ### The four messages -/

section

variable {sent : ω → List Bytes} {file : ω → P → Option Bytes} {writable : P → Prop}
  (hworks : Works env sent file writable)

include hworks

theorem Works.reply (data : Bytes) (s : Session P ω) :
    ∃ world, reply env data s = (.next, { s with world := world }) ∧ sent world = sent s.world ++ [data] ∧
      file world = file s.world := by
  have hsend := hworks.sendall data s.world
  have hsent := hworks.sent_sendall data s.world
  have hfile := hworks.file_sendall data s.world
  unfold Tcp.reply
  rcases hcall : env.sendall data s.world with ⟨ok, world⟩
  rw [hcall] at hsend hsent hfile
  obtain rfl : ok = true := hsend
  exact ⟨world, rfl, hsent, hfile⟩

theorem dispatch_name (u : Transfer env) {s : Session P ω} (hbin : s.binRecvFlag = false) :
    ∃ s', dispatch env (commandBody (21, u.name)) s = (.next, s') ∧ s'.binRecvFlag = false ∧
      s'.filepath = u.filepath ∧ s'.gzip = some u.gzip ∧
      sent s'.world = sent s.world ++ [[0x32, 0x31, 0x20, 0x6F, 0x6B]] := by
  rw [dispatch_command env (by decide) (by decide) _ hbin, act, if_pos rfl, fileName, u.loads]
  dsimp only
  obtain ⟨world, hreply, hsent, -⟩ := hworks.reply [0x32, 0x31, 0x20, 0x6F, 0x6B]
    { s with filepath := u.filepath, gzip := some u.gzip, acted := s.acted ++ [.command 21 u.name] }
  exact ⟨_, hreply, hbin, rfl, rfl, hsent⟩

theorem dispatch_length (u : Transfer env) {s : Session P ω} (hbin : s.binRecvFlag = false) :
    ∃ s', dispatch env (commandBody (22, encode .little 8 u.payload.length)) s = (.next, s') ∧
      s'.binRecvFlag = true ∧ s'.content = [] ∧ s'.length = u.payload.length ∧ s'.filepath = s.filepath ∧
      s'.gzip = s.gzip ∧ sent s'.world = sent s.world ++ [[0x32, 0x32, 0x20, 0x6F, 0x6B]] := by
  have hpayload := u.payloadShort
  have hlt : u.payload.length < 256 ^ 8 := Nat.lt_of_lt_of_le hpayload (by decide)
  have hdecode : decode .little (encode .little 8 u.payload.length) = u.payload.length := decode_encode_of_lt hlt
  have height : ¬(encode .little 8 u.payload.length).length < 8 := by rw [encode_length]; decide
  have hsame : ¬(encode .little 8 u.payload.length).length ≠ 8 := by rw [encode_length]; decide
  rw [dispatch_command env (by decide) (by decide) _ hbin, act, if_neg (by decide), if_pos rfl, fileLength,
    if_neg height, if_neg hsame, hdecode]
  obtain ⟨world, hreply, hsent, -⟩ := hworks.reply [0x32, 0x32, 0x20, 0x6F, 0x6B]
    { s with
      length := u.payload.length, content := [], binRecvFlag := true, bufsize := 102400000
      acted := s.acted ++ [.command 22 (encode .little 8 u.payload.length)] }
  exact ⟨_, hreply, rfl, rfl, rfl, rfl, rfl, hsent⟩

theorem dispatch_payload (u : Transfer env) {s : Session P ω} (hbin : s.binRecvFlag = true) (hcontent : s.content = [])
    (hlength : s.length = u.payload.length) :
    ∃ s', dispatch env u.payload s = (.next, s') ∧ s'.binRecvFlag = false ∧ s'.content = u.payload ∧
      s'.filepath = s.filepath ∧ s'.gzip = s.gzip ∧
      sent s'.world = sent s.world ++ [[0x32, 0x33, 0x20, 0x6F, 0x6B]] := by
  have hall : (s.content ++ u.payload).length = s.length := by rw [hcontent, List.nil_append, hlength]
  rw [dispatch, if_pos hbin, act, if_neg (by decide), if_neg (by decide), if_pos rfl, fileContent]
  dsimp only
  rw [if_pos hall]
  obtain ⟨world, hreply, hsent, -⟩ := hworks.reply [0x32, 0x33, 0x20, 0x6F, 0x6B]
    { s with
      content := s.content ++ u.payload, bufsize := 1024, binRecvFlag := false
      acted := s.acted ++ [.content u.payload] }
  refine ⟨_, hreply, rfl, ?_, rfl, rfl, hsent⟩
  dsimp only
  rw [hcontent, List.nil_append]

theorem dispatch_write (u : Transfer env) (hwritable : writable u.filepath) {s : Session P ω}
    (hbin : s.binRecvFlag = false) (hcontent : s.content = u.payload) (hpath : s.filepath = u.filepath)
    (hgzip : s.gzip = some u.gzip) :
    ∃ s', dispatch env (commandBody (24, [])) s = (.next, s') ∧ s'.binRecvFlag = false ∧ s'.content = [] ∧
      sent s'.world = sent s.world ++ [[0x32, 0x34, 0x20, 0x6F, 0x6B]] ∧
      file s'.world u.filepath = some u.stored := by
  have hwrite := hworks.writeFile u.filepath u.stored s.world hwritable
  have hsent := hworks.sent_writeFile u.filepath u.stored s.world
  have hfile := hworks.file_writeFile u.filepath u.stored s.world hwritable
  rw [dispatch_command env (by decide) (by decide) _ hbin, act, if_neg (by decide), if_neg (by decide),
    if_neg (by decide), if_pos rfl, fileWrite]
  dsimp only
  rw [hgzip]
  dsimp only
  rw [hcontent, u.unpacks, hpath]
  dsimp only
  rw [← Transfer.stored]
  rcases hcall : env.writeFile u.filepath u.stored s.world with ⟨ok, world⟩
  rw [hcall] at hwrite hsent hfile
  obtain rfl : ok = true := hwrite
  dsimp only
  obtain ⟨world', hreply, hsent', hfile'⟩ := hworks.reply [0x32, 0x34, 0x20, 0x6F, 0x6B]
    { s with
      filepath := u.filepath, gzip := some u.gzip, content := [], world := world
      acted := s.acted ++ [.command 24 []] }
  refine ⟨_, hreply, hbin, rfl, ?_, ?_⟩
  · dsimp only at hsent' ⊢
    rw [hsent', hsent]
  · dsimp only at hfile' ⊢
    rw [hfile', hfile]

/-! ### Transfers one after the other -/

theorem runMessages_transfer (u : Transfer env) (hwritable : writable u.filepath) {s : Session P ω}
    (hbin : s.binRecvFlag = false) :
    ∃ s', runMessages env u.bodies s = (.next, s') ∧ s'.binRecvFlag = false ∧ s'.content = [] ∧
      sent s'.world = sent s.world ++ Transfer.replies ∧ file s'.world u.filepath = some u.stored := by
  obtain ⟨s₁, hname, hbin₁, hpath₁, hgzip₁, hsent₁⟩ := dispatch_name hworks u hbin
  obtain ⟨s₂, hlength, hbin₂, hcontent₂, hlength₂, hpath₂, hgzip₂, hsent₂⟩ := dispatch_length hworks u hbin₁
  obtain ⟨s₃, hpayload, hbin₃, hcontent₃, hpath₃, hgzip₃, hsent₃⟩ := dispatch_payload hworks u hbin₂ hcontent₂ hlength₂
  have hpath : s₃.filepath = u.filepath := hpath₃.trans (hpath₂.trans hpath₁)
  have hgzip : s₃.gzip = some u.gzip := hgzip₃.trans (hgzip₂.trans hgzip₁)
  obtain ⟨s₄, hwrite, hbin₄, hcontent₄, hsent₄, hfile₄⟩ :=
    dispatch_write hworks u hwritable hbin₃ hcontent₃ hpath hgzip
  refine ⟨s₄, ?_, hbin₄, hcontent₄, ?_, hfile₄⟩
  · simp only [Transfer.bodies, runMessages, hname, hlength, hpayload, hwrite]
  · rw [hsent₄, hsent₃, hsent₂, hsent₁]
    simp only [Transfer.replies, List.append_assoc, List.cons_append, List.nil_append]

theorem runMessages_transfers (us : List (Transfer env)) (hwritable : ∀ v ∈ us, writable v.filepath) {s : Session P ω}
    (hbin : s.binRecvFlag = false) :
    ∃ s', runMessages env (us.flatMap Transfer.bodies) s = (.next, s') ∧ s'.binRecvFlag = false ∧
      sent s'.world = sent s.world ++ us.flatMap fun _ => Transfer.replies := by
  induction us generalizing s with
  | nil => exact ⟨s, rfl, hbin, (List.append_nil _).symm⟩
  | cons u us ih =>
    obtain ⟨s₁, hrun₁, hbin₁, -, hsent₁, -⟩ := runMessages_transfer hworks u (hwritable u List.mem_cons_self) hbin
    obtain ⟨s₂, hrun₂, hbin₂, hsent₂⟩ := ih (fun v hv => hwritable v (List.mem_cons_of_mem u hv)) hbin₁
    refine ⟨s₂, ?_, hbin₂, ?_⟩
    · rw [List.flatMap_cons, runMessages_append, hrun₁]
      exact hrun₂
    · rw [hsent₂, hsent₁, List.flatMap_cons, List.append_assoc]

/-- **A transfer is exact.** On a fresh connection, after any transfers `us`, the frames of `u` are answered `21 ok`,
`22 ok`, `23 ok` and `24 ok`, its file then holds exactly its content, and the connection is in command mode, with
nothing received of what comes next; the frames come in any recv results that are parts of one frame each, the first
one with its four length bytes. -/
theorem handle_transfers (us : List (Transfer env)) (u : Transfer env)
    (hwritable : ∀ v ∈ us ++ [u], writable v.filepath) (segs : List Bytes) (hne : ∀ seg ∈ segs, seg ≠ [])
    (hstream : segs.flatten = stream ((us ++ [u]).flatMap Transfer.bodies))
    (hfits : Fits 0 (((us ++ [u]).flatMap Transfer.bodies).map wire) segs) (world : ω) :
    ∃ s, (∀ more, handle env (segs ++ more) world = handleLoop env more .idle s) ∧ s.binRecvFlag = false ∧
      s.content = [] ∧ sent s.world = sent world ++ (us ++ [u]).flatMap (fun _ => Transfer.replies) ∧
      file s.world u.filepath = some u.stored := by
  have hshort : ∀ body ∈ (us ++ [u]).flatMap Transfer.bodies, body.length < 2 ^ 31 := by
    intro body hbody
    obtain ⟨v, -, hv⟩ := List.mem_flatMap.mp hbody
    exact v.bodies_short body hv
  have hlast : writable u.filepath := hwritable u (List.mem_append_right _ (List.mem_singleton_self u))
  obtain ⟨s₁, hrun₁, hbin₁, hsent₁⟩ :=
    runMessages_transfers hworks us (fun v hv => hwritable v (List.mem_append_left _ hv)) (s := setup env world) rfl
  obtain ⟨s₂, hrun₂, hbin₂, hcontent₂, hsent₂, hfile₂⟩ := runMessages_transfer hworks u hlast hbin₁
  have hrun : runMessages env ((us ++ [u]).flatMap Transfer.bodies) (setup env world) = (.next, s₂) := by
    rw [List.flatMap_append, runMessages_append, hrun₁, List.flatMap_singleton]
    exact hrun₂
  refine ⟨s₂, ?_, hbin₂, hcontent₂, ?_, hfile₂⟩
  · intro more
    have hloop := handleLoop_messages env segs _ .idle (setup env world) hne hshort (hstream ▸ .between _) hfits more
    rw [hrun] at hloop
    exact hloop
  · rw [hsent₂, hsent₁, List.flatMap_append, List.flatMap_singleton, List.append_assoc]
    rfl

end

/-! ### Two transfers -/

/-- `{"filepath": "a", "gzip": false}`. -/
def plainName : Bytes :=
  [0x7B, 0x22, 0x66, 0x69, 0x6C, 0x65, 0x70, 0x61, 0x74, 0x68, 0x22, 0x3A, 0x20, 0x22, 0x61, 0x22, 0x2C, 0x20, 0x22,
    0x67, 0x7A, 0x69, 0x70, 0x22, 0x3A, 0x20, 0x66, 0x61, 0x6C, 0x73, 0x65, 0x7D]

/-- `{"filepath": "b", "gzip": true}`. -/
def gzipName : Bytes :=
  [0x7B, 0x22, 0x66, 0x69, 0x6C, 0x65, 0x70, 0x61, 0x74, 0x68, 0x22, 0x3A, 0x20, 0x22, 0x62, 0x22, 0x2C, 0x20, 0x22,
    0x67, 0x7A, 0x69, 0x70, 0x22, 0x3A, 0x20, 0x74, 0x72, 0x75, 0x65, 0x7D]

/-- `hi`, compressed. -/
def gzipHi : Bytes := [31, 139, 8, 0, 0, 0, 0, 0, 2, 3, 203, 200, 4, 0, 172, 42, 147, 216, 2, 0, 0, 0]

/-- A connection and a disk that never fail, for two names and one compressed content. -/
def diskEnv : HandlerEnv Str (List Bytes × (Str → Option Bytes)) where
  tmp := ['t', 'm', 'p']
  loads data := if data = plainName then some (['a'], false) else if data = gzipName then some (['b'], true) else none
  decompress data := if data = gzipHi then some [0x68, 0x69] else none
  sendall data world := (true, (world.1 ++ [data], world.2))
  writeFile path data world := (true, (world.1, Function.update world.2 path (some data)))
  onData _ _ _ world := (some none, world)

theorem diskEnv_works : Works diskEnv Prod.fst Prod.snd fun _ => True where
  sendall _ _ := rfl
  sent_sendall _ _ := rfl
  file_sendall _ _ := rfl
  writeFile _ _ _ _ := rfl
  sent_writeFile _ _ _ := rfl
  file_writeFile path data world _ := by
    change Function.update world.2 path (some data) path = some data
    exact Function.update_self path (some data) world.2

/-- An empty file, without compression. -/
def emptyTransfer : Transfer diskEnv :=
  ⟨['a'], false, [], plainName, [], by decide +kernel, rfl, by decide, by decide⟩

def gzipTransfer : Transfer diskEnv :=
  ⟨['b'], true, [0x68, 0x69], gzipName, gzipHi, by decide +kernel, by decide +kernel, by decide, by decide⟩

/-- The frames of both, the name of the first and the content of the second in two results. -/
def transferSegs : List Bytes :=
  [(wire (commandBody (21, plainName))).take 4, (wire (commandBody (21, plainName))).drop 4,
    wire (commandBody (22, encode .little 8 0)), wire [], wire (commandBody (24, [])),
    wire (commandBody (21, gzipName)), wire (commandBody (22, encode .little 8 22)),
    (wire gzipHi).take 9, (wire gzipHi).drop 9, wire (commandBody (24, []))]

theorem handle_transfers_two :
    ∃ s, (∀ more, handle diskEnv (transferSegs ++ more) ([], fun _ => none) = handleLoop diskEnv more .idle s) ∧
      s.binRecvFlag = false ∧ s.content = [] ∧ s.world.1 = Transfer.replies ++ Transfer.replies ∧
      s.world.2 ['b'] = some [0x68, 0x69] :=
  handle_transfers diskEnv_works [emptyTransfer] gzipTransfer (fun _ _ => trivial) transferSegs (by decide +kernel)
    (by decide +kernel) (by decide +kernel) ([], fun _ => none)

end SocketServer.Tcp
