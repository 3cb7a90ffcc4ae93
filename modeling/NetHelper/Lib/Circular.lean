import Mathlib.Data.List.Nodup
import Mathlib.Data.Set.Function
import Mathlib.Order.Interval.Set.Defs

/-!
# Positions on a circle

Arithmetic of the positions `0, …, n - 1` of a circular buffer: `adv` steps forward, `dist` counts the steps from one
position to another, `span` and `window` list the positions passed. A circular index is compared with another only through
the number of steps from a common origin, so every fact about an interval is a fact about `dist`.
-/

namespace Circ

/-- The position reached from `a` after `k` steps on a circle of `n` positions. -/
def adv (n a k : Nat) : Nat := (a + k) % n

/-- The number of steps forward from `a` to `b` on a circle of `n` positions. -/
def dist (n a b : Nat) : Nat := (b + (n - a)) % n

/-- The `k` positions passed from `a` on. -/
def span (n a k : Nat) : List Nat := (List.range k).map (adv n a)

/-- The positions from `a` up to `b`, without `b`. -/
def window (n a b : Nat) : List Nat := span n a (dist n a b)

/-- Going forward from `a`, the position `b` is reached no later than `c`. -/
def Between (n a b c : Nat) : Prop := dist n a b ≤ dist n a c

variable {n a b c x j k : Nat}

/-! ## Steps -/

theorem adv_lt (hn : 0 < n) : adv n a k < n := Nat.mod_lt _ hn

@[simp] theorem adv_zero (ha : a < n) : adv n a 0 = a := Nat.mod_eq_of_lt ha

theorem adv_adv : adv n (adv n a j) k = adv n a (j + k) := by
  rw [adv, adv, adv, Nat.mod_add_mod, Nat.add_assoc]

/-- One step compares with the size and starts again at zero. -/
theorem adv_one (ha : a < n) : adv n a 1 = if n ≤ a + 1 then 0 else a + 1 := by
  unfold adv
  split
  · rename_i h
    have : a + 1 = n := by omega
    rw [this, Nat.mod_self]
  · rename_i h
    exact Nat.mod_eq_of_lt (by omega)

theorem dist_lt (hn : 0 < n) : dist n a b < n := Nat.mod_lt _ hn

/-- The two cases of a distance: the target is ahead, or it is reached through zero. -/
theorem dist_eq (ha : a < n) (hb : b < n) : dist n a b = if a ≤ b then b - a else b + n - a := by
  unfold dist
  split
  · rename_i h
    have e : b + (n - a) = (b - a) + n := by omega
    rw [e, Nat.add_mod_right, Nat.mod_eq_of_lt (by omega)]
  · rename_i h
    rw [Nat.mod_eq_of_lt (by omega)]
    omega

@[simp] theorem dist_self (ha : a < n) : dist n a a = 0 := by
  rw [dist_eq ha ha, if_pos (Nat.le_refl a), Nat.sub_self]

/-- Going the distance reaches the target. -/
theorem adv_dist (ha : a < n) (hb : b < n) : adv n a (dist n a b) = b := by
  rw [dist_eq ha hb]
  unfold adv
  split
  · rw [Nat.mod_eq_of_lt (by omega)]
    omega
  · have e : a + (b + n - a) = b + n := by omega
    rw [e, Nat.add_mod_right, Nat.mod_eq_of_lt hb]

/-- Fewer than `n` steps are counted exactly. -/
theorem dist_adv (ha : a < n) (hk : k < n) : dist n a (adv n a k) = k := by
  rw [dist_eq ha (adv_lt (by omega))]
  unfold adv
  by_cases h : a + k < n
  · rw [Nat.mod_eq_of_lt h, if_pos (by omega)]
    omega
  · rw [Nat.mod_eq_sub_mod (by omega), Nat.mod_eq_of_lt (by omega), if_neg (by omega)]
    omega

/-- Different numbers of steps, all below `n`, reach different positions. -/
theorem adv_inj (ha : a < n) (hj : j < n) (hk : k < n) (h : adv n a j = adv n a k) : j = k := by
  have := congrArg (dist n a) h
  rwa [dist_adv ha hj, dist_adv ha hk] at this

theorem dist_eq_zero_iff (ha : a < n) (hb : b < n) : dist n a b = 0 ↔ a = b := by
  rw [dist_eq ha hb]
  split <;> omega

/-! ## Intervals -/

/-- A position between splits the distance in two. -/
theorem dist_add_dist (ha : a < n) (hb : b < n) (hc : c < n) (h : Between n a b c) :
    dist n a b + dist n b c = dist n a c := by
  unfold Between at h
  rw [dist_eq ha hb, dist_eq ha hc] at h
  rw [dist_eq ha hb, dist_eq hb hc, dist_eq ha hc]
  split at h <;> split at h <;> split <;> split <;> omega

/-- Steps past `b` add to the distance from `a`, as long as the circle is not closed. -/
theorem dist_adv_add (ha : a < n) (hb : b < n) (h : dist n a b + k < n) : dist n a (adv n b k) = dist n a b + k := by
  have e : adv n b k = adv n a (dist n a b + k) := by
    rw [← adv_adv, adv_dist ha hb]
  rw [e, dist_adv ha h]

/-- Steps taken from a position between stay between as long as they do not pass the end. -/
theorem dist_adv_of_between (ha : a < n) (hb : b < n) (hc : c < n) (h : Between n a b c) (hk : k ≤ dist n b c) :
    dist n a (adv n b k) = dist n a b + k := by
  have hs := dist_add_dist ha hb hc h
  have hlt : dist n a c < n := dist_lt (by omega)
  exact dist_adv_add ha hb (by omega)

/-- The start of a way lies on it. -/
theorem between_refl (ha : a < n) : Between n a a c := by
  unfold Between
  rw [dist_self ha]
  exact Nat.zero_le _

/-- Steps taken from a position between lead no further than the end. -/
theorem between_adv (ha : a < n) (hb : b < n) (hc : c < n) (h : Between n a b c) (hk : k ≤ dist n b c) :
    Between n a (adv n b k) c := by
  have hs := dist_add_dist ha hb hc h
  unfold Between
  rw [dist_adv_of_between ha hb hc h hk]
  omega

/-- Steps taken from a position between lead forward. -/
theorem between_of_adv (ha : a < n) (hb : b < n) (hc : c < n) (h : Between n a b c) (hk : k ≤ dist n b c) :
    Between n a b (adv n b k) := by
  unfold Between
  rw [dist_adv_of_between ha hb hc h hk]
  exact Nat.le_add_right _ _

/-- What is left of the way to `c` after `k` steps from `b`. -/
theorem dist_adv_left (hb : b < n) (hc : c < n) (hk : k ≤ dist n b c) : dist n (adv n b k) c = dist n b c - k := by
  have hn : 0 < n := by omega
  have hlt : dist n b c < n := dist_lt hn
  have hd : dist n b (adv n b k) = k := dist_adv hb (by omega)
  have := dist_add_dist hb (adv_lt hn) hc (show Between n b (adv n b k) c by unfold Between; omega)
  omega

/-! ## Positions passed -/

@[simp] theorem length_span : (span n a k).length = k := by simp [span]

@[simp] theorem length_window : (window n a b).length = dist n a b := length_span

@[simp] theorem span_zero : span n a 0 = [] := rfl

/-- The positions passed in `j + k` steps are those of the first `j`, then those of the next `k`. -/
theorem span_add : span n a (j + k) = span n a j ++ span n (adv n a j) k := by
  simp only [span, List.range_add, List.map_append, List.map_map]
  congr 1
  apply List.map_congr_left
  intro i _
  simp [adv_adv]

/-- Fewer positions from the same place are the first of more. -/
theorem span_prefix (h : j ≤ k) : span n a j <+: span n a k := by
  obtain ⟨m, rfl⟩ := Nat.exists_eq_add_of_le h
  rw [span_add]
  exact List.prefix_append _ _

theorem span_cons (ha : a < n) : span n a (k + 1) = a :: span n (adv n a 1) k := by
  rw [Nat.add_comm, span_add]
  simp [span, adv_zero ha]

theorem mem_span : x ∈ span n a k ↔ ∃ i < k, adv n a i = x := by
  simp [span]

/-- A position is among the `k` passed from `a` exactly when it is fewer than `k` steps away. -/
theorem mem_span_iff (ha : a < n) (hk : k ≤ n) : x ∈ span n a k ↔ x < n ∧ dist n a x < k := by
  rw [mem_span]
  constructor
  · rintro ⟨i, hi, rfl⟩
    exact ⟨adv_lt (by omega), by rwa [dist_adv ha (by omega)]⟩
  · rintro ⟨hx, hd⟩
    exact ⟨dist n a x, hd, adv_dist ha hx⟩

theorem mem_window_iff (ha : a < n) : x ∈ window n a b ↔ x < n ∧ dist n a x < dist n a b :=
  mem_span_iff ha (Nat.le_of_lt (dist_lt (by omega)))

/-- Each position of the window is reached by one number of steps below the distance. -/
theorem bijOn_window (ha : a < n) : Set.BijOn (adv n a) (Set.Iio (dist n a b)) {x | x ∈ window n a b} := by
  have hlt : dist n a b < n := dist_lt (by omega)
  refine ⟨?_, ?_, ?_⟩
  · intro k hk
    exact mem_span.mpr ⟨k, hk, rfl⟩
  · intro j hj k hk he
    rw [Set.mem_Iio] at hj hk
    exact adv_inj ha (by omega) (by omega) he
  · intro x hx
    exact mem_span.mp hx

@[simp] theorem window_self (ha : a < n) : window n a a = [] := by
  simp [window, dist_self ha]

/-- The window that starts `k` steps on is the old one without its first `k` positions. -/
theorem window_adv (hb : b < n) (hc : c < n) (hk : k ≤ dist n b c) :
    window n b c = span n b k ++ window n (adv n b k) c := by
  have e : dist n b c = k + (dist n b c - k) := by omega
  simp only [window]
  rw [dist_adv_left hb hc hk]
  conv_lhs => rw [e, span_add]

/-- A window that ends `k` steps further is the old one with the `k` positions passed after it. -/
theorem window_extend (ha : a < n) (hb : b < n) (h : dist n a b + k < n) :
    window n a (adv n b k) = window n a b ++ span n b k := by
  simp only [window]
  rw [dist_adv_add ha hb h, span_add, adv_dist ha hb]

/-- A window that ends `k` steps further, and not past `c`. -/
theorem window_grow (ha : a < n) (hb : b < n) (hc : c < n) (h : Between n a b c) (hk : k ≤ dist n b c) :
    window n a (adv n b k) = window n a b ++ span n b k := by
  have hs := dist_add_dist ha hb hc h
  have hlt : dist n a c < n := dist_lt (by omega)
  exact window_extend ha hb (by omega)

/-- The positions of the window from `b` to `c` are not in the window from `a` to `b`. -/
theorem adv_not_mem_window (ha : a < n) (hb : b < n) (hc : c < n) (h : Between n a b c) (hk : k < dist n b c) :
    adv n b k ∉ window n a b := by
  rw [mem_window_iff ha, dist_adv_of_between ha hb hc h (Nat.le_of_lt hk)]
  omega

end Circ
