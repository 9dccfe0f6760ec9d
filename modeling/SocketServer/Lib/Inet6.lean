import SocketServer.Lib.Inet

/-!
# IPv6 addresses as text

`inet_ntop` writes the eight groups of an address in hexadecimal, a longest run of zero groups as `::`, and the last two
groups of some addresses as a dotted quad. `inet_pton` reads all of these.

* `inetPton6_length` : an address has sixteen bytes;
* `inetPton6_inetNtop6` : the text of an address denotes the address.
-/

namespace Inet

open Bytes

/-! ### Groups -/

theorem groupBytes_length (gs : List Nat) : (groupBytes gs).length = 2 * gs.length := by
  induction gs with
  | nil => rfl
  | cons g gs ih =>
    rw [groupBytes, List.flatMap_cons, List.length_append, encode_length, ← groupBytes, ih, List.length_cons]
    omega

/-- The groups on one side of `::`. -/
def parseSide (last : Bool) (s : Str) : Option (List Nat) :=
  if s = [] then some [] else parseGroups last (s.splitOn ':')

theorem inetPton6_of_gap {s l r : Str} (h : splitGap s = some (l, r)) :
    inetPton6 s = (parseSide false l).bind fun gs => (parseSide true r).bind fun hs =>
      if gs.length + hs.length ≤ 7 then
        some (groupBytes (gs ++ List.replicate (8 - gs.length - hs.length) 0 ++ hs))
      else none := by
  rw [inetPton6, h, parseSide, parseSide]
  dsimp only
  split_ifs <;> rfl

theorem inetPton6_of_no_gap {s : Str} (h : splitGap s = none) :
    inetPton6 s = (parseGroups true (s.splitOn ':')).bind fun gs =>
      if gs.length = 8 then some (groupBytes gs) else none := by
  rw [inetPton6, h]
  rfl

theorem inetPton6_length {s : Str} {b : Bytes} (h : inetPton6 s = some b) : b.length = 16 := by
  rcases hgap : splitGap s with _ | ⟨l, r⟩
  · rw [inetPton6_of_no_gap hgap] at h
    obtain ⟨gs, -, h⟩ := Option.bind_eq_some_iff.mp h
    split_ifs at h with hlen
    obtain rfl := Option.some.inj h
    rw [groupBytes_length, hlen]
  · rw [inetPton6_of_gap hgap] at h
    obtain ⟨gs, -, h⟩ := Option.bind_eq_some_iff.mp h
    obtain ⟨hs, -, h⟩ := Option.bind_eq_some_iff.mp h
    split_ifs at h with hlen
    obtain rfl := Option.some.inj h
    rw [groupBytes_length, List.length_append, List.length_append, List.length_replicate]
    omega

theorem groups_length : ∀ b : Bytes, (groups b).length = b.length / 2
  | [] => rfl
  | [_] => by simp [groups]
  | x :: y :: b => by
    rw [groups, List.length_cons, groups_length b, List.length_cons, List.length_cons]
    omega

theorem groups_lt : ∀ b : Bytes, ∀ g ∈ groups b, g < 65536
  | [] => by simp [groups]
  | [_] => by simp [groups]
  | x :: y :: b => by
    intro g hg
    rw [groups, List.mem_cons] at hg
    rcases hg with rfl | hg
    · have hlt := decode_lt .big [x, y]
      rw [List.length_cons, List.length_singleton] at hlt
      omega
    · exact groups_lt b g hg

theorem groupBytes_groups : ∀ b : Bytes, b.length % 2 = 0 → groupBytes (groups b) = b
  | [], _ => rfl
  | [_], h => by cases h
  | x :: y :: b, h => by
    have hb : b.length % 2 = 0 := by
      rw [List.length_cons, List.length_cons] at h
      omega
    have hpair : encode .big 2 (decode .big [x, y]) = [x, y] := encode_decode .big [x, y]
    rw [groups, groupBytes, List.flatMap_cons, hpair, ← groupBytes, groupBytes_groups b hb]
    rfl

/-! ### Numbers in hexadecimal -/

theorem digitValue_digitChar : ∀ d < 16, digitValue (Nat.digitChar d) = some d ∧ Nat.digitChar d ≠ ':' ∧
    Nat.digitChar d ≠ '.' := by
  decide

theorem parseBase_append (base acc : Nat) (s : Str) (c : Char) :
    parseBase base acc (s ++ [c]) = (parseBase base acc s).bind fun n => parseBase base n [c] := by
  induction s generalizing acc with
  | nil => rfl
  | cons x s ih =>
    rw [List.cons_append, parseBase, parseBase]
    cases digitValue x with
    | none => rfl
    | some d =>
      simp only [Option.bind_eq_bind, Option.bind_some]
      split_ifs
      · exact ih _
      · rfl

theorem parseBase_digitChar {d : Nat} (hd : d < 16) (acc : Nat) :
    parseBase 16 acc [Nat.digitChar d] = some (acc * 16 + d) := by
  rw [parseBase, (digitValue_digitChar d hd).1]
  simp only [Option.bind_eq_bind, Option.bind_some, if_pos hd]
  rfl

theorem parseBase_toDigits (n : Nat) : parseBase 16 0 (Nat.toDigits 16 n) = some n := by
  induction n using Nat.strongRecOn with
  | ind n ih =>
    rcases Nat.lt_or_ge n 16 with hsmall | hlarge
    · rw [Nat.toDigits_of_lt_base hsmall, parseBase_digitChar hsmall, Nat.zero_mul, Nat.zero_add]
    · have hlow : n % 16 < 16 := Nat.mod_lt n (by decide)
      rw [Nat.toDigits_of_base_le (by decide) hlarge, parseBase_append, ih (n / 16) (by omega), Option.bind_some,
        parseBase_digitChar hlow, Nat.div_add_mod']

theorem mem_toDigits {n : Nat} {c : Char} (h : c ∈ Nat.toDigits 16 n) : c ≠ ':' ∧ c ≠ '.' := by
  induction n using Nat.strongRecOn with
  | ind n ih =>
    rcases Nat.lt_or_ge n 16 with hsmall | hlarge
    · rw [Nat.toDigits_of_lt_base hsmall, List.mem_singleton] at h
      rw [h]
      exact (digitValue_digitChar n hsmall).2
    · rw [Nat.toDigits_of_base_le (by decide) hlarge, List.mem_append, List.mem_singleton] at h
      rcases h with h | rfl
      · exact ih (n / 16) (by omega) h
      · exact (digitValue_digitChar (n % 16) (Nat.mod_lt n (by decide))).2

theorem parseGroup_toDigits {n : Nat} (h : n < 65536) : parseGroup (Nat.toDigits 16 n) = some n := by
  have hlen : (Nat.toDigits 16 n).length ≤ 4 := (Nat.length_toDigits_le_iff (by decide) (by decide)).mpr h
  rw [parseGroup, if_neg, parseBase_toDigits]
  rintro (hnil | hlong)
  · exact Nat.toDigits_ne_nil hnil
  · omega

/-! ### Groups as text -/

theorem joinGroups_singleton (g : Nat) : joinGroups [g] = Nat.toDigits 16 g := by simp [joinGroups]

theorem joinGroups_cons (g g' : Nat) (gs : List Nat) :
    joinGroups (g :: g' :: gs) = Nat.toDigits 16 g ++ ':' :: joinGroups (g' :: gs) := by
  simp [joinGroups, List.intercalate]

theorem exists_joinGroups (g : Nat) (gs : List Nat) : ∃ c s, joinGroups (g :: gs) = c :: s ∧ c ≠ ':' := by
  obtain ⟨c, s, hdigits⟩ := List.exists_cons_of_ne_nil (Nat.toDigits_ne_nil (n := g) (b := 16))
  have hc : c ≠ ':' := (mem_toDigits (n := g) (hdigits ▸ List.mem_cons_self)).1
  cases gs with
  | nil => exact ⟨c, s, by rw [joinGroups_singleton, hdigits], hc⟩
  | cons g' gs => exact ⟨c, _, by rw [joinGroups_cons, hdigits, List.cons_append], hc⟩

theorem joinGroups_eq_nil_iff {gs : List Nat} : joinGroups gs = [] ↔ gs = [] := by
  cases gs with
  | nil => exact ⟨fun _ => rfl, fun _ => rfl⟩
  | cons g gs =>
    obtain ⟨c, s, hcons, -⟩ := exists_joinGroups g gs
    rw [hcons]
    exact ⟨nofun, nofun⟩

theorem splitGap_cons {c d : Char} (hd : d ≠ ':') (s : Str) :
    splitGap (c :: d :: s) = (splitGap (d :: s)).map fun p => (c :: p.1, p.2) := by
  rw [splitGap]
  rintro s' - hs
  exact hd (List.head_eq_of_cons_eq hs)

theorem splitGap_append {s : Str} (hs : ':' ∉ s) (t : Str) :
    splitGap (s ++ t) = (splitGap t).map fun p => (s ++ p.1, p.2) := by
  induction s with
  | nil => simp
  | cons c s ih =>
    have hc : c ≠ ':' := fun hc => hs (hc ▸ List.mem_cons_self)
    rw [List.cons_append, splitGap, ih fun hmem => hs (List.mem_cons_of_mem c hmem), Option.map_map]
    · rfl
    · rintro s' rfl
      exact absurd rfl hc

theorem splitGap_joinGroups (gs : List Nat) (t : Str) :
    splitGap (joinGroups gs ++ t) = (splitGap t).map fun p => (joinGroups gs ++ p.1, p.2) := by
  have hdigits (g : Nat) : ':' ∉ Nat.toDigits 16 g := fun h => (mem_toDigits h).1 rfl
  match gs with
  | [] => simp [joinGroups]
  | [g] => rw [joinGroups_singleton, splitGap_append (hdigits g)]
  | g :: g' :: gs =>
    have ih := splitGap_joinGroups (g' :: gs) t
    obtain ⟨c, s, hcons, hc⟩ := exists_joinGroups g' gs
    rw [joinGroups_cons, List.append_assoc, splitGap_append (hdigits g), List.cons_append]
    rw [hcons, List.cons_append] at ih ⊢
    rw [splitGap_cons hc, ih, Option.map_map, Option.map_map]
    congr 1
    funext p
    simp

theorem splitOn_joinGroups {gs : List Nat} (h : gs ≠ []) : (joinGroups gs).splitOn ':' = gs.map (Nat.toDigits 16) := by
  refine List.splitOn_intercalate ':' ?_ (by simpa using h)
  intro l hl
  obtain ⟨g, -, rfl⟩ := List.mem_map.mp hl
  exact fun hmem => (mem_toDigits hmem).1 rfl

theorem parseGroups_toDigits (last : Bool) (gs : List Nat) (h : ∀ g ∈ gs, g < 65536) :
    parseGroups last (gs.map (Nat.toDigits 16)) = some gs := by
  match gs with
  | [] => rfl
  | [g] =>
    have hdot : (Nat.toDigits 16 g).contains '.' = false := by
      rw [Bool.eq_false_iff, ne_eq, List.contains_iff_mem]
      exact fun hmem => (mem_toDigits hmem).2 rfl
    rw [List.map_singleton, parseGroups, hdot, Bool.and_false, if_neg Bool.false_ne_true,
      parseGroup_toDigits (h g List.mem_cons_self)]
    rfl
  | g :: g' :: gs =>
    have ih := parseGroups_toDigits last (g' :: gs) fun x hx => h x (List.mem_cons_of_mem g hx)
    rw [List.map_cons, parseGroups, parseGroup_toDigits (h g List.mem_cons_self), ih]
    · rfl
    · simp

theorem parseSide_joinGroups (last : Bool) {gs : List Nat} (h : ∀ g ∈ gs, g < 65536) :
    parseSide last (joinGroups gs) = some gs := by
  rw [parseSide]
  split_ifs with hnil
  · rw [joinGroups_eq_nil_iff.mp hnil]
  · rw [splitOn_joinGroups (mt joinGroups_eq_nil_iff.mpr hnil), parseGroups_toDigits last gs h]

/-! ### Runs of zeros -/

theorem take_zerosAt (gs : List Nat) (i : Nat) :
    (gs.drop i).take (zerosAt gs i) = List.replicate (zerosAt gs i) 0 := by
  have hprefix := List.prefix_iff_eq_take.mp (List.takeWhile_prefix (l := gs.drop i) (· == 0))
  rw [zerosAt, ← hprefix]
  refine List.eq_replicate_iff.mpr ⟨rfl, fun g hg => ?_⟩
  simpa using List.mem_takeWhile_imp hg

theorem take_zeroRun (gs : List Nat) :
    (gs.drop (zeroRun gs).1).take (zeroRun gs).2 = List.replicate (zeroRun gs).2 0 := by
  have hfold : ∀ (l : List Nat) (best : Nat × Nat), (gs.drop best.1).take best.2 = List.replicate best.2 0 →
      (gs.drop (l.foldl (fun best i => if best.2 < zerosAt gs i then (i, zerosAt gs i) else best) best).1).take
          (l.foldl (fun best i => if best.2 < zerosAt gs i then (i, zerosAt gs i) else best) best).2 =
        List.replicate (l.foldl (fun best i => if best.2 < zerosAt gs i then (i, zerosAt gs i) else best) best).2 0 := by
    intro l
    induction l with
    | nil => exact fun _ h => h
    | cons i l ih =>
      intro best h
      rw [List.foldl_cons]
      refine ih _ ?_
      split_ifs
      · exact take_zerosAt gs i
      · exact h
  exact hfold _ (0, 0) rfl

theorem eq_append_zeroRun (gs : List Nat) :
    gs = gs.take (zeroRun gs).1 ++ List.replicate (zeroRun gs).2 0 ++ gs.drop ((zeroRun gs).1 + (zeroRun gs).2) := by
  rw [← take_zeroRun, ← List.drop_drop, List.append_assoc, List.take_append_drop, List.take_append_drop]

/-! ### Dotted quads -/

theorem parseOctet_toDigits : ∀ n < 256, parseOctet (Nat.toDigits 10 n) = some n := by
  have hall : (List.range 256).all (fun n => parseOctet (Nat.toDigits 10 n) == some n) = true := by decide +kernel
  intro n hn
  simpa using List.all_eq_true.mp hall n (List.mem_range.mpr hn)

theorem parseQuad_dottedQuad {b : Bytes} (h : b.length = 4) : parseQuad (dottedQuad b) = some (groups b) := by
  have hoctets (b : Bytes) :
      (b.map fun x => Nat.toDigits 10 x.toNat).mapM parseOctet = some (b.map UInt8.toNat) := by
    induction b with
    | nil => rfl
    | cons x b ih =>
      rw [List.map_cons, List.mapM_cons, parseOctet_toDigits x.toNat x.toNat_lt, ih]
      rfl
  match b, h with
  | [w, x, y, z], _ =>
    have hpair (x y : UInt8) : decode .big [x, y] = x.toNat * 256 + y.toNat := by
      change y.toNat + 256 * (x.toNat + 256 * 0) = _
      omega
    rw [parseQuad, splitOn_dottedQuad (List.cons_ne_nil _ _), hoctets]
    simp only [List.map_cons, List.map_nil, groups, hpair]

theorem dot_mem_dottedQuad {b : Bytes} (h : 2 ≤ b.length) : (dottedQuad b).contains '.' = true := by
  match b, h with
  | x :: y :: b, _ => simp [dottedQuad, List.intercalate]

theorem colon_notMem_dottedQuad (b : Bytes) : ':' ∉ dottedQuad b := by
  have hall : (List.range 256).all (fun n => (Nat.toDigits 10 n).all (· != ':')) = true := by decide +kernel
  intro hmem
  rcases mem_dottedQuad hmem with hdot | ⟨x, -, hx⟩
  · cases hdot
  · have hdigits := List.all_eq_true.mp hall x.toNat (List.mem_range.mpr x.toNat_lt)
    simpa using List.all_eq_true.mp hdigits ':' hx

theorem parseGroups_dottedQuad {b : Bytes} (h : b.length = 4) :
    parseGroups true [dottedQuad b] = some (groups b) := by
  rw [parseGroups, dot_mem_dottedQuad (by omega), Bool.and_self, if_pos rfl, parseQuad_dottedQuad h]

theorem parseSide_dottedQuad {b : Bytes} (h : b.length = 4) :
    parseSide true (dottedQuad b) = some (groups b) := by
  have hsplit : (dottedQuad b).splitOn ':' = [dottedQuad b] := by
    have hcolon : ∀ l ∈ [dottedQuad b], ':' ∉ l := fun l hl => List.mem_singleton.mp hl ▸ colon_notMem_dottedQuad b
    have hjoin := List.splitOn_intercalate ':' hcolon (List.cons_ne_nil _ _)
    simpa using hjoin
  have hne : dottedQuad b ≠ [] := by
    intro hnil
    have hdot := dot_mem_dottedQuad (b := b) (by omega)
    rw [hnil] at hdot
    cases hdot
  rw [parseSide, if_neg hne, hsplit, parseGroups_dottedQuad h]

theorem parseSide_mapped {b : Bytes} (h : b.length = 4) :
    parseSide true (['f', 'f', 'f', 'f', ':'] ++ dottedQuad b) = some (0xffff :: groups b) := by
  have hcolon : ∀ l ∈ [['f', 'f', 'f', 'f'], dottedQuad b], ':' ∉ l := by
    intro l hl
    simp only [List.mem_cons, List.not_mem_nil, or_false] at hl
    rcases hl with rfl | rfl
    · decide
    · exact colon_notMem_dottedQuad b
  have hsplit : (['f', 'f', 'f', 'f', ':'] ++ dottedQuad b).splitOn ':' = [['f', 'f', 'f', 'f'], dottedQuad b] := by
    have hjoin := List.splitOn_intercalate ':' hcolon (List.cons_ne_nil _ _)
    simpa [List.intercalate] using hjoin
  have hffff : parseGroup ['f', 'f', 'f', 'f'] = some 0xffff := by decide
  rw [parseSide, if_neg (by simp), hsplit, parseGroups, hffff, parseGroups_dottedQuad h]
  · rfl
  · exact List.cons_ne_nil _ _

/-! ### The text of an IPv6 address -/

theorem groups_drop (b : Bytes) (k : Nat) : groups (b.drop (2 * k)) = (groups b).drop k := by
  induction k generalizing b with
  | zero => rfl
  | succ k ih =>
    match b with
    | [] => simp [groups]
    | [x] =>
      have hlen : ([x] : Bytes).drop (2 * (k + 1)) = [] := List.drop_eq_nil_of_le (by rw [List.length_singleton]; omega)
      rw [hlen]
      simp [groups]
    | x :: y :: b =>
      rw [groups, List.drop_succ_cons, ← ih b]
      rfl

theorem inetPton6_run {s l r : Str} {gs : List Nat} {base len : Nat} (hgap : splitGap s = some (l, r))
    (hgs : gs.length = 8) (hrun : gs = gs.take base ++ List.replicate len 0 ++ gs.drop (base + len))
    (hin : base + len ≤ 8) (hlen : 2 ≤ len) (hl : parseSide false l = some (gs.take base))
    (hr : parseSide true r = some (gs.drop (base + len))) : inetPton6 s = some (groupBytes gs) := by
  have htake : (gs.take base).length = base := by rw [List.length_take]; omega
  have hdrop : (gs.drop (base + len)).length = 8 - (base + len) := by rw [List.length_drop, hgs]
  have hzeros : 8 - base - (8 - (base + len)) = len := by omega
  rw [inetPton6_of_gap hgap, hl, hr, Option.bind_some, Option.bind_some, htake, hdrop, hzeros, ← hrun, if_pos (by omega)]

/-- **The text of an IPv6 address denotes the address.** -/
theorem inetPton6_inetNtop6 {b : Bytes} (h : b.length = 16) : ∃ s, inetNtop6 b = some s ∧ inetPton6 s = some b := by
  have hgs : (groups b).length = 8 := by rw [groups_length, h]
  have hlt := groups_lt b
  have hbytes := groupBytes_groups b (by omega)
  have hfour : (b.drop 12).length = 4 := by rw [List.length_drop, h]
  have hquad : groups (b.drop 12) = (groups b).drop 6 := groups_drop b 6
  have hrun := eq_append_zeroRun (groups b)
  have hzeros := congrArg List.length (take_zeroRun (groups b))
  rw [List.length_take, List.length_drop, List.length_replicate, hgs] at hzeros
  rw [inetNtop6, if_neg (not_not_intro h)]
  dsimp only
  generalize groups b = gs at *
  generalize zeroRun gs = run at *
  obtain ⟨base, len⟩ := run
  dsimp only at hrun hzeros ⊢
  rw [← hbytes]
  split_ifs with hshort hsix hfive
  · -- no run
    refine ⟨_, rfl, ?_⟩
    have hgap : splitGap (joinGroups gs) = none := by
      have hjoin := splitGap_joinGroups gs []
      rwa [List.append_nil] at hjoin
    have hne : gs ≠ [] := List.ne_nil_of_length_pos (by omega)
    rw [inetPton6_of_no_gap hgap, splitOn_joinGroups hne, parseGroups_toDigits true gs hlt, Option.bind_some, if_pos hgs]
  · -- six zero groups, and a dotted quad
    obtain ⟨rfl, rfl⟩ := hsix
    refine ⟨_, rfl, inetPton6_run rfl hgs hrun (by omega) (by omega) rfl ?_⟩
    rw [hbytes]
    exact (parseSide_dottedQuad hfour).trans (congrArg some hquad)
  · -- five zero groups, `ffff`, and a dotted quad
    obtain ⟨rfl, rfl, hffff⟩ := hfive
    refine ⟨_, rfl, inetPton6_run rfl hgs hrun (by omega) (by omega) rfl ?_⟩
    rw [hbytes]
    have hdrop : gs.drop 5 = 0xffff :: gs.drop 6 := by
      have hfive : 5 < gs.length := by omega
      rw [List.drop_eq_getElem_cons hfive, ← hffff, List.getD_eq_getElem?_getD, List.getElem?_eq_getElem hfive,
        Option.getD_some]
    rw [Nat.zero_add, hdrop, ← hquad]
    exact parseSide_mapped hfour
  · have hside : ∀ g ∈ gs.take base, g < 65536 := fun g hg => hlt g (List.mem_of_mem_take hg)
    have hside' : ∀ g ∈ gs.drop (base + len), g < 65536 := fun g hg => hlt g (List.mem_of_mem_drop hg)
    refine ⟨_, rfl, inetPton6_run (l := joinGroups (gs.take base)) (r := joinGroups (gs.drop (base + len))) ?_ hgs hrun
      (by omega) (by omega) (parseSide_joinGroups false hside) (parseSide_joinGroups true hside')⟩
    rw [List.append_assoc, splitGap_joinGroups]
    simp [splitGap]

end Inet
