import SocketServer.Lib.Bytes

/-!
# Reading loops

A loop that reads items from the front of a byte string until it stops or fails. One turn of it is a function of the
bytes still to come; a turn that reads an item consumes some of them (`Consuming`), which is why the loop ends.

* `readLoop_eq` : the equation of the loop;
* `readLoop_flatMap` : a loop whose turns read what `write` wrote reads back a list written item by item.
-/

universe u v

/-- What one turn of a reading loop does. -/
inductive Turn (ε : Type u) (α : Type v)
  | stop
  | fail (e : ε)
  | item (a : α) (rest : Bytes)

variable {ε : Type u} {α : Type v}

/-- Every turn that reads an item consumes some of the bytes. -/
def Consuming (turn : Bytes → Turn ε α) : Prop :=
  ∀ s a rest, turn s = .item a rest → rest.length < s.length

/-- At most `fuel` turns: the items read, and the error that ended the loop, if one did. -/
def readFuel (turn : Bytes → Turn ε α) : Nat → Bytes → List α × Option ε
  | 0, _ => ([], none)
  | fuel + 1, s =>
    match turn s with
    | .stop => ([], none)
    | .fail e => ([], some e)
    | .item a rest => (a :: (readFuel turn fuel rest).1, (readFuel turn fuel rest).2)

/-- The loop. It ends before its fuel does if it is `Consuming`. -/
def readLoop (turn : Bytes → Turn ε α) (s : Bytes) : List α × Option ε := readFuel turn (s.length + 1) s

variable {turn : Bytes → Turn ε α}

theorem readFuel_of_lt (h : Consuming turn) {n m : Nat} {s : Bytes} (hn : s.length < n) (hm : s.length < m) :
    readFuel turn n s = readFuel turn m s := by
  induction n generalizing s m with
  | zero => omega
  | succ n ih =>
    obtain ⟨m, rfl⟩ : ∃ k, m = k + 1 := ⟨m - 1, by omega⟩
    rw [readFuel, readFuel]
    cases hturn : turn s with
    | stop => rfl
    | fail e => rfl
    | item a rest =>
      have hrest := h s a rest hturn
      simp only
      rw [ih (s := rest) (m := m) (by omega) (by omega)]

/-- **The equation of the loop**, in which no fuel appears. -/
theorem readLoop_eq (h : Consuming turn) (s : Bytes) :
    readLoop turn s =
      match turn s with
      | .stop => ([], none)
      | .fail e => ([], some e)
      | .item a rest => (a :: (readLoop turn rest).1, (readLoop turn rest).2) := by
  rw [readLoop, readFuel]
  cases hturn : turn s with
  | stop => rfl
  | fail e => rfl
  | item a rest =>
    have hrest := h s a rest hturn
    simp only [readLoop]
    rw [readFuel_of_lt h (m := rest.length + 1) (by omega) (by omega)]

theorem forall_mem_readLoop {P : α → Prop} (h : ∀ s a rest, turn s = .item a rest → P a) (s : Bytes) :
    ∀ a ∈ (readLoop turn s).1, P a := by
  rw [readLoop]
  generalize s.length + 1 = fuel
  induction fuel generalizing s with
  | zero => intro a ha; cases ha
  | succ fuel ih =>
    intro a ha
    rw [readFuel] at ha
    cases hturn : turn s with
    | stop => rw [hturn] at ha; cases ha
    | fail e => rw [hturn] at ha; cases ha
    | item b rest =>
      rw [hturn] at ha
      rcases List.mem_cons.mp ha with rfl | ha
      · exact h s a rest hturn
      · exact ih rest a ha

theorem readLoop_flatMap_append {β : Type*} (h : Consuming turn) {write : β → Bytes} {view : β → α} {xs : List β}
    (hread : ∀ x ∈ xs, ∀ s, turn (write x ++ s) = .item (view x) s) (tail : Bytes) :
    readLoop turn (xs.flatMap write ++ tail) = (xs.map view ++ (readLoop turn tail).1, (readLoop turn tail).2) := by
  induction xs with
  | nil => rfl
  | cons x xs ih =>
    have hx := hread x List.mem_cons_self (xs.flatMap write ++ tail)
    have hxs := ih fun y hy => hread y (List.mem_cons_of_mem x hy)
    rw [List.flatMap_cons, List.append_assoc, readLoop_eq h, hx]
    simp only
    rw [hxs, List.map_cons, List.cons_append]

theorem readLoop_flatMap {β : Type*} (h : Consuming turn) (hnil : turn [] = .stop) {write : β → Bytes} {view : β → α}
    {xs : List β} (hread : ∀ x ∈ xs, ∀ s, turn (write x ++ s) = .item (view x) s) :
    readLoop turn (xs.flatMap write) = (xs.map view, none) := by
  have happend := readLoop_flatMap_append h hread []
  rw [List.append_nil, readLoop_eq h [], hnil, List.append_nil] at happend
  exact happend
