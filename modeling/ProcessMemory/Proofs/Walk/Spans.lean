import ProcessMemory.Walk.Window

/-!
# How a span is cut into windows

The windows of a span in closed form: whole ones a stride apart for as long as they fit, and one
more that ends with the span where the last of them does not. Going from window to window by
`Window.next?` gives just these (`Window.chain_first`).
-/
namespace ProcessMemory

namespace Grid

variable (g : Grid)

def whole (s e : Nat) : List (Nat × Nat) :=
  ((List.range (e + 1)).filter fun k => s + k * g.stride + g.size ≤ e).map fun k =>
    (s + k * g.stride, g.size)

/-- Start and size of the windows of the span from `s` up to `e`. -/
def spans (s e : Nat) : List (Nat × Nat) :=
  if e - s < g.size then [(s, e - s)]
  else
    let whole := g.whole s e
    if whole.getLast?.any fun w => w.1 + w.2 = e then whole else whole ++ [(e - g.size, g.size)]

variable {g} {s e : Nat}

theorem whole_eq_nil (h : e < s + g.size) : g.whole s e = [] := by
  rw [whole, List.map_eq_nil_iff, List.filter_eq_nil_iff]
  intro k _ hk
  have := of_decide_eq_true hk
  omega

/-- The window at `s`, and then those a stride further up. -/
theorem whole_eq_cons (h : s + g.size ≤ e) :
    g.whole s e = (s, g.size) :: g.whole (s + g.stride) e := by
  have hstride := g.stride_pos
  -- The last number of the range is too large for a window to fit, so both ranges are the same.
  have hlast : ¬s + g.stride + e * g.stride + g.size ≤ e := by
    have := Nat.le_mul_of_pos_right e hstride
    omega
  have hrest : (List.range (e + 1)).filter (fun k => s + g.stride + k * g.stride + g.size ≤ e) =
      (List.range e).filter fun k => s + g.stride + k * g.stride + g.size ≤ e := by
    rw [List.range_succ, List.filter_append, List.filter_cons_of_neg (by simpa using hlast),
      List.filter_nil, List.append_nil]
  have hshift : ∀ k, s + (k + 1) * g.stride = s + g.stride + k * g.stride := by
    intro k
    rw [Nat.succ_mul]
    omega
  have hzero : s + 0 * g.stride + g.size ≤ e := by omega
  simp only [whole, hrest]
  rw [List.range_succ_eq_map, List.filter_cons_of_pos (by simpa using hzero), List.filter_map]
  simp [Function.comp_def, hshift]

theorem spans_of_short (h : e < s + g.size) (hs : s < e) : g.spans s e = [(s, e - s)] := by
  rw [spans, if_pos (by omega)]

theorem spans_of_exact (h : s + g.size = e) : g.spans s e = [(s, g.size)] := by
  have hpos := g.stride_pos
  rw [spans, if_neg (by omega), whole_eq_cons (by omega), whole_eq_nil (by omega)]
  simp [h]

/-- Where no window fits a stride further up, the next one ends with the span. -/
theorem spans_of_tail (h : s + g.size < e) (ht : e < s + g.stride + g.size) :
    g.spans s e = [(s, g.size), (e - g.size, g.size)] := by
  rw [spans, if_neg (by omega), whole_eq_cons (by omega), whole_eq_nil (by omega)]
  simp [Nat.ne_of_lt h]

theorem spans_of_stride (h : s + g.stride + g.size ≤ e) :
    g.spans s e = (s, g.size) :: g.spans (s + g.stride) e := by
  have hne : g.whole (s + g.stride) e ≠ [] := by
    rw [whole_eq_cons h]
    exact List.cons_ne_nil _ _
  have hs : ¬e - s < g.size := by omega
  have hs' : ¬e - (s + g.stride) < g.size := by omega
  simp only [spans, if_neg hs, if_neg hs']
  rw [whole_eq_cons (s := s) (by omega), List.getLast?_cons_of_ne_nil hne]
  split <;> rfl

end Grid

namespace Window

variable {g : Grid}

def span (w : Window g) : Nat × Nat := (w.address.toNat, w.size)

def chain (w : Window g) : List (Window g) :=
  match _h : w.next? with
  | some next => w :: next.chain
  | none => [w]
termination_by w.stop.toNat - w.address.toNat
decreasing_by
  have hlt := address_lt_of_next? _h
  have hstop := next.address_lt_stop
  rw [stop_of_next? _h] at *
  rw [Address.lt_def] at *
  omega

theorem chain_of_none {w : Window g} (h : w.next? = none) : w.chain = [w] := by
  rw [chain]
  split
  · rename_i next hn
    rw [h] at hn
    cases hn
  · rfl

theorem next?_eq_none {w : Window g} (h : w.finish = w.stop.toNat) : w.next? = none := by
  rw [next?, dif_neg (Nat.not_lt_of_le (Nat.le_of_eq h.symm))]

/-- From a whole window on the chain is what the closed form says. -/
theorem chain_whole (w : Window g) (h : w.size = g.size) :
    w.chain.map span = g.spans w.address.toNat w.stop.toNat := by
  fun_induction chain w with
  | case1 w next hn ih =>
    obtain ⟨hmore, hsize, hstop, haddress⟩ := follows_of_next? hn
    rw [finish, h] at hmore
    rw [List.map_cons, ih hsize, hstop, span, h]
    split at haddress
    · rename_i hfit
      rw [haddress, Grid.spans_of_stride hfit]
    · rename_i hfit
      rw [haddress, Grid.spans_of_exact (by omega), Grid.spans_of_tail hmore (by omega)]
  | case2 w hn =>
    have hfinish := finish_eq_of_next? hn
    rw [finish, h] at hfinish
    rw [List.map_singleton, span, h, Grid.spans_of_exact hfinish]

/-- The windows of a span are those of the closed form. -/
theorem chain_first {start stop : Address} (h : start < stop) :
    (first g start stop h).chain.map span = g.spans start.toNat stop.toNat := by
  have hlt : start.toNat < stop.toNat := h
  by_cases hwide : start.toNat + g.size ≤ stop.toNat
  · refine chain_whole _ ?_
    simp only [first, Address.distanceTo]
    omega
  · have hshort : (first g start stop h).size = stop.toNat - start.toNat := by
      simp only [first, Address.distanceTo]
      omega
    have hn : (first g start stop h).next? = none := by
      refine next?_eq_none ?_
      rw [finish, hshort, first_address, first_stop]
      omega
    rw [Grid.spans_of_short (by omega) hlt, chain_of_none hn, List.map_singleton, span, hshort,
      first_address]

example : (Grid.sliding 5 (by decide)).spans 0 12 = [(0, 5), (2, 5), (4, 5), (6, 5), (7, 5)] := by
  decide

end Window
end ProcessMemory
