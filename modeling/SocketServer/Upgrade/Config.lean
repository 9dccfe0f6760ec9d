import SocketServer.Lib.Grouping
import SocketServer.Lib.Text

/-!
# The config file (`autoupgrade.py`, `read_http_port`, `_read_config_proxy`)

Three readers look for the first line that begins with a key and `=`. `set_autoupgrade` makes a dictionary of the whole
file, in which the last line of a key counts and spaces around the key do not, and writes it back.

* `readValue_setAutoupgrade` : a reader finds the value of the dictionary in the file written;
* `setAutoupgrade_iff` : the switch is always read back, and the other settings are the same as before exactly when the
  first line that a reader finds and the last one with the key say the same.
-/

namespace SocketServer.Upgrade

open Text

/-! ### Lines -/

/-- What reading in text mode makes of the ends of lines. -/
def translateNewlines : Str → Str
  | [] => []
  | '\r' :: '\n' :: s => '\n' :: translateNewlines s
  | c :: s => (if c = '\r' then '\n' else c) :: translateNewlines s

/-- The lines, without their ends. -/
def splitLines : Str → List Str
  | [] => []
  | c :: s =>
    if c = '\n' then [] :: splitLines s
    else
      match splitLines s with
      | line :: lines => (c :: line) :: lines
      | [] => [[c]]

/-- `for line in f`, with `line = line.strip()`; there are no lines where there is no file. -/
def strippedLines (config : Option Str) : List Str :=
  match config with
  | some text => (splitLines (translateNewlines text)).map (strip isSpace)
  | none => []

/-- `line.split("=", 1)`, `none` if there is no `=` in the line. -/
def splitEq (line : Str) : Option (Str × Str) :=
  match line.dropWhile (· ≠ '=') with
  | _ :: value => some (line.takeWhile (· ≠ '='), value)
  | [] => none

/-! ### Reading -/

/-- The value in the first line that begins with `key=`. -/
def readValue (key : Str) (config : Option Str) : Option Str :=
  (strippedLines config).findSome? fun line =>
    if key ++ ['='] <+: line then (splitEq line).map fun pair => strip isSpace pair.2 else none

def autoupgradeKey : Str := ['a', 'u', 't', 'o', 'u', 'p', 'g', 'r', 'a', 'd', 'e']

def httpPortKey : Str := ['h', 't', 't', 'p', '_', 'p', 'o', 'r', 't']

def proxyKey : Str := ['p', 'r', 'o', 'x', 'y']

/-- `_read_autoupgrade_config`. -/
def readAutoupgradeConfig (config : Option Str) : Bool :=
  match readValue autoupgradeKey config with
  | some value => value.map Char.toLower = ['o', 'n']
  | none => true

/-- `DEFAULT_HTTP_PORT`. -/
def defaultHttpPort : Int := 9001

/-- The port that a value gives: the default if there is none, or if `int` raises. -/
def portOf (int : Str → Option Int) (value : Option Str) : Int := (value.bind int).getD defaultHttpPort

/-- `read_http_port`, with `int` as it is for any text. -/
def readHttpPort (int : Str → Option Int) (config : Option Str) : Int := portOf int (readValue httpPortKey config)

/-- `val or None`. -/
def proxyOf (value : Option Str) : Option Str := value.filter fun s => !s.isEmpty

def readConfigProxy (config : Option Str) : Option Str := proxyOf (readValue proxyKey config)

/-! ### Writing -/

/-- `state`. -/
inductive Switch
  | on
  | off
  deriving DecidableEq, Repr

def Switch.text : Switch → Str
  | .on => ['o', 'n']
  | .off => ['o', 'f', 'f']

/-- The key and the value of a line, if there is `=` in it. -/
def entry (line : Str) : Option (Str × Str) :=
  (splitEq line).map fun pair => (strip isSpace pair.1, strip isSpace pair.2)

/-- `config`, as it is read. -/
def configDict (config : Option Str) : Dict Str Str :=
  ((strippedLines config).filterMap entry).foldl (fun d pair => d.put pair.1 pair.2) []

/-- `f"{k}={v}\n"`. -/
def line (pair : Str × Str) : Str := pair.1 ++ '=' :: pair.2

/-- The file after `set_autoupgrade(state)`. -/
def setAutoupgrade (state : Switch) (config : Option Str) : Str :=
  ((configDict config).put autoupgradeKey state.text).flatMap fun pair => line pair ++ ['\n']

/-! ### What the readers should find -/

/-- The value in the last line with this key, spaces around it aside. -/
def lastValue (key : Str) (config : Option Str) : Option Str :=
  (((strippedLines config).filterMap entry).filter fun pair => pair.1 = key).getLast?.map Prod.snd

/-- The first line that a reader finds and the last line with the key say the same, for each of the two settings. -/
structure SameSettings (int : Str → Option Int) (config : Option Str) : Prop where
  port : portOf int (lastValue httpPortKey config) = portOf int (readValue httpPortKey config)
  proxy : proxyOf (lastValue proxyKey config) = proxyOf (readValue proxyKey config)

/-! ### Reading what was written -/

theorem not_cr_translateNewlines (s : Str) : '\r' ∉ translateNewlines s := by
  induction s using translateNewlines.induct with
  | case1 => exact nofun
  | case2 s ih =>
    rw [translateNewlines, List.mem_cons, not_or]
    exact ⟨by decide, ih⟩
  | case3 c s hcrlf ih =>
    rw [translateNewlines, List.mem_cons, not_or]
    · refine ⟨?_, ih⟩
      split_ifs with hc
      · decide
      · exact Ne.symm hc
    · exact hcrlf

theorem translateNewlines_of_not_cr {s : Str} (h : '\r' ∉ s) : translateNewlines s = s := by
  induction s using translateNewlines.induct with
  | case1 => rfl
  | case2 s ih => exact absurd List.mem_cons_self h
  | case3 c s hcrlf ih =>
    rw [List.mem_cons, not_or] at h
    rw [translateNewlines, if_neg (Ne.symm h.1), ih h.2]
    exact hcrlf

theorem mem_of_mem_splitLines {s l : Str} (h : l ∈ splitLines s) : ∀ c ∈ l, c ∈ s ∧ c ≠ '\n' := by
  induction s generalizing l with
  | nil => cases h
  | cons c s ih =>
    rw [splitLines] at h
    split_ifs at h with hc
    · rcases List.mem_cons.mp h with rfl | h
      · exact nofun
      · exact fun c' hc' => (ih h c' hc').imp_left (List.mem_cons_of_mem _)
    · rcases hlines : splitLines s with _ | ⟨first, lines⟩
      all_goals rw [hlines] at h
      · obtain rfl := List.mem_singleton.mp h
        intro c' hc'
        obtain rfl := List.mem_singleton.mp hc'
        exact ⟨List.mem_cons_self, hc⟩
      · rcases List.mem_cons.mp h with rfl | h
        · intro c' hc'
          rcases List.mem_cons.mp hc' with rfl | hc'
          · exact ⟨List.mem_cons_self, hc⟩
          · exact (ih (hlines ▸ List.mem_cons_self) c' hc').imp_left (List.mem_cons_of_mem _)
        · have hmem : l ∈ splitLines s := hlines ▸ List.mem_cons_of_mem _ h
          exact fun c' hc' => (ih hmem c' hc').imp_left (List.mem_cons_of_mem _)

theorem splitLines_append {l : Str} (h : '\n' ∉ l) (s : Str) : splitLines (l ++ '\n' :: s) = l :: splitLines s := by
  induction l with
  | nil => rw [List.nil_append, splitLines, if_pos rfl]
  | cons c l ih =>
    rw [List.mem_cons, not_or] at h
    rw [List.cons_append, splitLines, if_neg (Ne.symm h.1), ih h.2]

theorem splitLines_flatMap {lines : List Str} (h : ∀ l ∈ lines, '\n' ∉ l) :
    splitLines (lines.flatMap fun l => l ++ ['\n']) = lines := by
  induction lines with
  | nil => rfl
  | cons l lines ih =>
    obtain ⟨hl, hlines⟩ := List.forall_mem_cons.mp h
    rw [List.flatMap_cons, List.append_assoc, List.singleton_append, splitLines_append hl, ih hlines]

/-! ### Keys and values -/

/-- A key and a value as the dictionary holds them. -/
structure Clean (pair : Str × Str) : Prop where
  key : Stripped isSpace pair.1
  value : Stripped isSpace pair.2
  noEq : '=' ∉ pair.1
  noEnd : ∀ c ∈ pair.1 ++ pair.2, c ≠ '\n' ∧ c ≠ '\r'

theorem splitEq_append {key : Str} (h : '=' ∉ key) (value : Str) :
    splitEq (key ++ '=' :: value) = some (key, value) := by
  have hall : ∀ c ∈ key, decide (c ≠ '=') = true := by
    intro c hc
    refine decide_eq_true ?_
    rintro rfl
    exact h hc
  have hdrop : (key ++ '=' :: value).dropWhile (· ≠ '=') = '=' :: value := by
    rw [List.dropWhile_append_of_pos hall]
    rfl
  have htake : (key ++ '=' :: value).takeWhile (· ≠ '=') = key := by
    rw [List.takeWhile_append_of_pos hall]
    simp
  rw [splitEq, hdrop, htake]

theorem splitEq_eq_some {l : Str} {pair : Str × Str} (h : splitEq l = some pair) :
    l = pair.1 ++ '=' :: pair.2 ∧ '=' ∉ pair.1 := by
  unfold splitEq at h
  rcases hdrop : l.dropWhile (· ≠ '=') with _ | ⟨c, value⟩
  all_goals rw [hdrop] at h
  · cases h
  · obtain rfl := Option.some.inj h
    have hc : c = '=' := by
      have hnot := List.head?_dropWhile_not (· ≠ '=') l
      rw [hdrop] at hnot
      simpa using hnot
    subst hc
    refine ⟨?_, fun hmem => ?_⟩
    · conv_lhs => rw [← List.takeWhile_append_dropWhile (p := (· ≠ '=')) (l := l), hdrop]
    · simpa using List.mem_takeWhile_imp hmem

theorem clean_entry {l : Str} {pair : Str × Str} (hl : ∀ c ∈ l, c ≠ '\n' ∧ c ≠ '\r') (h : entry l = some pair) :
    Clean pair := by
  obtain ⟨raw, hraw, rfl⟩ := Option.map_eq_some_iff.mp h
  obtain ⟨rfl, hnoEq⟩ := splitEq_eq_some hraw
  refine ⟨stripped_strip .., stripped_strip .., fun hmem => hnoEq (mem_of_mem_strip hmem), fun c hc => hl c ?_⟩
  rcases List.mem_append.mp hc with hc | hc
  · exact List.mem_append_left _ (mem_of_mem_strip hc)
  · exact List.mem_append_right _ (List.mem_cons_of_mem _ (mem_of_mem_strip hc))

theorem strippedLines_noEnd {config : Option Str} {l : Str} (h : l ∈ strippedLines config) :
    ∀ c ∈ l, c ≠ '\n' ∧ c ≠ '\r' := by
  cases config with
  | none => cases h
  | some text =>
    obtain ⟨raw, hraw, rfl⟩ := List.mem_map.mp h
    intro c hc
    obtain ⟨hmem, hne⟩ := mem_of_mem_splitLines hraw c (mem_of_mem_strip hc)
    refine ⟨hne, ?_⟩
    rintro rfl
    exact not_cr_translateNewlines text hmem

theorem clean_put {d : Dict Str Str} (hd : ∀ pair ∈ d, Clean pair) {pair : Str × Str} (h : Clean pair) :
    ∀ pair' ∈ d.put pair.1 pair.2, Clean pair' := by
  induction d with
  | nil => exact List.forall_mem_singleton.mpr h
  | cons first d ih =>
    obtain ⟨hfirst, hrest⟩ := List.forall_mem_cons.mp hd
    obtain ⟨k, v⟩ := first
    rw [Dict.put]
    split_ifs
    · exact List.forall_mem_cons.mpr ⟨h, hrest⟩
    · exact List.forall_mem_cons.mpr ⟨hfirst, ih hrest⟩

theorem clean_configDict (config : Option Str) : ∀ pair ∈ configDict config, Clean pair := by
  have hentries : ∀ pair ∈ (strippedLines config).filterMap entry, Clean pair := by
    intro pair hpair
    obtain ⟨l, hl, hentry⟩ := List.mem_filterMap.mp hpair
    exact clean_entry (strippedLines_noEnd hl) hentry
  rw [configDict]
  generalize (strippedLines config).filterMap entry = entries at hentries
  induction entries using List.reverseRecOn with
  | nil => exact nofun
  | append_singleton entries pair ih =>
    obtain ⟨hbefore, hpair⟩ := List.forall_mem_append.mp hentries
    rw [List.foldl_append]
    exact clean_put (ih hbefore) (hpair pair (List.mem_singleton_self pair))

theorem clean_autoupgrade (state : Switch) : Clean (autoupgradeKey, state.text) := by
  cases state
  all_goals
    refine ⟨⟨?_, ?_⟩, ⟨?_, ?_⟩, by decide, ?_⟩
    · rintro c ⟨⟩
      rfl
    · rintro c ⟨⟩
      rfl
    · rintro c ⟨⟩
      rfl
    · rintro c ⟨⟩
      rfl
    · simp [autoupgradeKey, Switch.text]

/-! ### The file written -/

theorem strip_line {pair : Str × Str} (h : Clean pair) : strip isSpace (line pair) = line pair := by
  refine strip_of_stripped ⟨fun c hc => ?_, fun c hc => ?_⟩
  · rw [line, List.head?_append] at hc
    rcases hkey : pair.1.head? with _ | c'
    · rw [hkey] at hc
      obtain rfl := Option.some.inj hc
      rfl
    · rw [hkey] at hc
      obtain rfl := Option.some.inj hc
      exact h.key.head _ hkey
  · rw [line, List.getLast?_append, List.getLast?_cons] at hc
    rcases hvalue : pair.2.getLast? with _ | c'
    · rw [hvalue] at hc
      obtain rfl := Option.some.inj hc
      rfl
    · rw [hvalue] at hc
      obtain rfl := Option.some.inj hc
      exact h.value.last _ hvalue

theorem line_noEnd {pair : Str × Str} (h : Clean pair) {c : Char} (hc : c ∈ line pair) : c ≠ '\n' ∧ c ≠ '\r' := by
  rcases List.mem_append.mp hc with hkey | hvalue
  · exact h.noEnd c (List.mem_append_left _ hkey)
  · rcases List.mem_cons.mp hvalue with rfl | hvalue
    · decide
    · exact h.noEnd c (List.mem_append_right _ hvalue)

theorem strippedLines_written {d : Dict Str Str} (h : ∀ pair ∈ d, Clean pair) :
    strippedLines (some (d.flatMap fun pair => line pair ++ ['\n'])) = d.map line := by
  have hlines : ∀ l ∈ d.map line, '\n' ∉ l ∧ '\r' ∉ l := by
    intro l hl
    obtain ⟨pair, hpair, rfl⟩ := List.mem_map.mp hl
    exact ⟨fun hc => (line_noEnd (h pair hpair) hc).1 rfl, fun hc => (line_noEnd (h pair hpair) hc).2 rfl⟩
  have hflat : (d.flatMap fun pair => line pair ++ ['\n']) = (d.map line).flatMap fun l => l ++ ['\n'] := by
    rw [List.flatMap_map]
  have hcr : '\r' ∉ (d.map line).flatMap fun l => l ++ ['\n'] := by
    intro hc
    obtain ⟨l, hl, hmem⟩ := List.mem_flatMap.mp hc
    rcases List.mem_append.mp hmem with hmem | hmem
    · exact (hlines l hl).2 hmem
    · exact absurd (List.mem_singleton.mp hmem) (by decide)
  rw [strippedLines, hflat, translateNewlines_of_not_cr hcr, splitLines_flatMap fun l hl => (hlines l hl).1]
  rw [List.map_map]
  refine List.map_congr_left fun pair hpair => ?_
  exact strip_line (h pair hpair)

/-- A line of the file begins with a key and `=` exactly when it has this key. -/
theorem prefix_line_iff {key : Str} (hkey : '=' ∉ key) {pair : Str × Str} (h : Clean pair) :
    key ++ ['='] <+: line pair ↔ pair.1 = key := by
  constructor
  · rintro ⟨t, ht⟩
    have hsplit := splitEq_append hkey t
    rw [← List.singleton_append, ← List.append_assoc, ht, line, splitEq_append h.noEq] at hsplit
    exact congrArg Prod.fst (Option.some.inj hsplit)
  · rintro rfl
    exact ⟨pair.2, by rw [line, List.append_assoc]; rfl⟩

theorem readValue_written {key : Str} (hkey : '=' ∉ key) {d : Dict Str Str} (h : ∀ pair ∈ d, Clean pair) :
    readValue key (some (d.flatMap fun pair => line pair ++ ['\n'])) = d.get key := by
  rw [readValue, strippedLines_written h]
  induction d with
  | nil => rfl
  | cons pair d ih =>
    obtain ⟨hpair, hd⟩ := List.forall_mem_cons.mp h
    have hread := prefix_line_iff hkey hpair
    rw [List.map_cons, List.findSome?_cons]
    obtain ⟨k, v⟩ := pair
    rw [Dict.get]
    by_cases hk : k = key
    · rw [if_pos (hread.mpr hk), if_pos hk, line, splitEq_append hpair.noEq, Option.map_some,
        strip_of_stripped hpair.value]
    · rw [if_neg fun hprefix => hk (hread.mp hprefix), if_neg hk]
      exact ih hd

theorem get_configDict (key : Str) (config : Option Str) : (configDict config).get key = lastValue key config := by
  have hgroup : configDict config =
      Grouping.group Prod.fst (fun _ pair => pair.2) ((strippedLines config).filterMap entry) := rfl
  rw [hgroup, Grouping.get_group, lastValue]
  generalize ((strippedLines config).filterMap entry).filter (fun pair => pair.1 = key) = pairs
  induction pairs using List.reverseRecOn with
  | nil => rfl
  | append_singleton pairs pair ih => rw [Grouping.record_snoc, List.getLast?_concat]; rfl

/-- **What a reader finds** after `set_autoupgrade`. -/
theorem readValue_setAutoupgrade (key : Str) (hkey : '=' ∉ key) (state : Switch) (config : Option Str) :
    readValue key (some (setAutoupgrade state config)) =
      if autoupgradeKey = key then some state.text else lastValue key config := by
  have hclean := clean_put (clean_configDict config) (clean_autoupgrade state)
  rw [setAutoupgrade, readValue_written hkey hclean, Dict.get_put, get_configDict]

/-- **`set_autoupgrade`**, for any config file and for none: the switch is read back as it was set, and the port and the
proxy are read as before if and only if the first line that their reader finds and the last line with their key give the
same. -/
theorem setAutoupgrade_iff (int : Str → Option Int) (state : Switch) (config : Option Str) :
    readAutoupgradeConfig (some (setAutoupgrade state config)) = decide (state = .on) ∧
      (readHttpPort int (some (setAutoupgrade state config)) = readHttpPort int config ∧
          readConfigProxy (some (setAutoupgrade state config)) = readConfigProxy config ↔
        SameSettings int config) := by
  have hauto := readValue_setAutoupgrade autoupgradeKey (by decide) state config
  have hport := readValue_setAutoupgrade httpPortKey (by decide) state config
  have hproxy := readValue_setAutoupgrade proxyKey (by decide) state config
  rw [if_pos rfl] at hauto
  rw [if_neg (by decide)] at hport hproxy
  constructor
  · rw [readAutoupgradeConfig, hauto]
    cases state <;> rfl
  · rw [readHttpPort, readHttpPort, readConfigProxy, readConfigProxy, hport, hproxy]
    exact ⟨fun h => ⟨h.1, h.2⟩, fun h => ⟨h.port, h.proxy⟩⟩

/-- Two lines for the port. -/
def twoPorts : Str := httpPortKey ++ ['=', '9', '1', '0', '0', '\n'] ++ httpPortKey ++ ['=', '9', '2', '0', '0', '\n']

/-- A line for the port with spaces around `=`, which no reader looks at. -/
def spacedPort : Str := httpPortKey ++ [' ', '=', ' ', '9', '2', '0', '0', '\n']

/-- The port is another one after the switch was set. -/
theorem readHttpPort_twoPorts :
    (readHttpPort parseInt (some twoPorts) = 9100 ∧
        readHttpPort parseInt (some (setAutoupgrade .off (some twoPorts))) = 9200) ∧
      readHttpPort parseInt (some spacedPort) = 9001 ∧
        readHttpPort parseInt (some (setAutoupgrade .off (some spacedPort))) = 9200 := by
  decide +kernel

end SocketServer.Upgrade
