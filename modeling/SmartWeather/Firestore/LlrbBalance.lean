import SmartWeather.Firestore.LlrbNode
import SmartWeather.Library.SortedList

/-!
# The trees of the client are balanced

`Balanced n c h`: the node `n` has colour `c`, every path from it to a leaf has `h` black nodes, red
links lean to the left and no red node has a red child.

* `innerInsert` may leave a red node with a red left child (`Nearly`), which `fixUp` of the parent
  puts right;
* `innerErase` goes down along nodes from which an entry can be taken (`Ready`): the moves before
  each step down make the child ready, and any child that the step may return (`Erased`) can be put
  back (`prepareLeft_spec`, `prepareRight_spec`).
-/

namespace SmartWeather.Firestore.LlrbNode

variable {α : Type} {n l r : LlrbNode α} {e : α} {c c' : Color} {s h : ℕ}

inductive Balanced : LlrbNode α → Color → ℕ → Prop
  | empty : Balanced empty .black 0
  | red {e : α} {s h : ℕ} {l r : LlrbNode α} :
      Balanced l .black h → Balanced r .black h → Balanced (node e .red s l r) .red h
  | black {e : α} {c : Color} {s h : ℕ} {l r : LlrbNode α} :
      Balanced l c h → Balanced r .black h → Balanced (node e .black s l r) .black (h + 1)

/-- A red node that may have a red left child. -/
inductive Nearly : LlrbNode α → ℕ → Prop
  | mk {e : α} {c : Color} {s h : ℕ} {l r : LlrbNode α} :
      Balanced l c h → Balanced r .black h → Nearly (node e .red s l r) h

theorem Balanced.red_iff (hn : Balanced n c h) : n.red = true ↔ c = .red := by
  cases hn <;> simp [LlrbNode.red]

theorem Balanced.not_red (hn : Balanced n .black h) : n.red = false := by
  cases hn <;> rfl

theorem Balanced.eq_node (hn : Balanced n .red h) : ∃ e s l r, n = node e .red s l r ∧
    Balanced l .black h ∧ Balanced r .black h := by
  cases hn with
  | red hl hr => exact ⟨_, _, _, _, rfl, hl, hr⟩

theorem Balanced.eq_node_of_black (hn : Balanced n .black (h + 1)) : ∃ e c s l r,
    n = node e .black s l r ∧ Balanced l c h ∧ Balanced r .black h := by
  cases hn with
  | black hl hr => exact ⟨_, _, _, _, _, rfl, hl, hr⟩

/-! ### What `fixUp` makes of a node with balanced children -/

/-- Nothing is out of place. -/
theorem fixUp_eq_rep (hr : r.red = false) (hl : l.red = true → l.left.red = false) :
    fixUp (node e c s l r) = rep e c l r := by
  cases hl' : l.red with
  | false => simp [fixUp, setSize, rep, hr, hl']
  | true => simp [fixUp, setSize, rep, hr, hl', hl hl']

theorem Balanced.left_not_red (hn : Balanced n c h) : n.red = true → n.left.red = false := by
  intro hred
  cases hn with
  | red hl _ => exact hl.not_red
  | _ => cases hred

theorem fixUp_right_black (hl : Balanced l c' h) (hr : Balanced r .black h) :
    fixUp (node e c s l r) = rep e c l r :=
  fixUp_eq_rep hr.not_red hl.left_not_red

/-- A red right child alone moves to the left. -/
theorem fixUp_right_red {e' : α} {s' : ℕ} {rl rr : LlrbNode α} (hl : l.red = false)
    (hrr : rr.red = false) : fixUp (node e c s l (node e' .red s' rl rr)) =
      node e' c (l.size + 1 + s') (rep e .red l rl) rr := by
  simp [fixUp, setSize, rep, hl, hrr]

theorem fixUp_black (hl : Balanced l c h) (hr : Balanced r c' h) (hc : c = .black ∨ c' = .black) :
    Balanced (fixUp (node e .black s l r)) .black (h + 1) := by
  cases c' with
  | black =>
    rw [fixUp_right_black hl hr]
    exact .black hl hr
  | red =>
    obtain rfl : c = .black := hc.resolve_right Color.noConfusion
    obtain ⟨e', s', rl, rr, rfl, hrl, hrr⟩ := hr.eq_node
    rw [fixUp_right_red hl.not_red hrr.not_red]
    exact .black (.red hl hrl) hrr

/-- Two red children become black. -/
theorem fixUp_both_red (hl : Balanced l .red h) (hr : Balanced r .red h) :
    Balanced (fixUp (node e .black s l r)) .red (h + 1) := by
  obtain ⟨el, sl, ll, lr, rfl, hll, hlr⟩ := hl.eq_node
  obtain ⟨er, sr, rl, rr, rfl, hrl, hrr⟩ := hr.eq_node
  have hfix : fixUp (node e .black s (node el .red sl ll lr) (node er .red sr rl rr)) =
      node e .red (sl + 1 + sr) (node el .black sl ll lr) (node er .black sr rl rr) := by
    simp [fixUp, setSize, rep, hll.not_red, Color.opposite]
  rw [hfix]
  exact .red (.black hll hlr) (.black hrl hrr)

theorem fixUp_black_any (hl : Balanced l c h) (hr : Balanced r c' h) :
    ∃ c'', Balanced (fixUp (node e .black s l r)) c'' (h + 1) := by
  cases c with
  | black => exact ⟨_, fixUp_black hl hr (Or.inl rfl)⟩
  | red =>
    cases c' with
    | black => exact ⟨_, fixUp_black hl hr (Or.inr rfl)⟩
    | red => exact ⟨_, fixUp_both_red hl hr⟩

/-- Two red links in a row are turned into a red node with two black children. -/
theorem fixUp_black_nearly (hl : Nearly l h) (hr : Balanced r .black h) :
    ∃ c, Balanced (fixUp (node e .black s l r)) c (h + 1) := by
  obtain @⟨e', c, s', _, ll, lr, hll, hlr⟩ := hl
  cases c with
  | black => exact fixUp_black_any (.red hll hlr) hr
  | red =>
    obtain ⟨el, sl, a, b, rfl, ha, hb⟩ := hll.eq_node
    refine ⟨.red, ?_⟩
    have hfix : fixUp (node e .black s (node e' .red s' (node el .red sl a b) lr) r) =
        node e' .red (s' + 1 + r.size) (node el .black sl a b) (rep e .black lr r) := by
      simp [fixUp, setSize, rep, hr.not_red, Color.opposite]
    rw [hfix]
    exact .red (.black ha hb) (.black hlr hr)

theorem fixUp_red (hl : Balanced l c h) (hr : Balanced r c' h) (hc : c = .black ∨ c' = .black) :
    Nearly (fixUp (node e .red s l r)) h := by
  cases c' with
  | black =>
    rw [fixUp_right_black hl hr]
    exact .mk hl hr
  | red =>
    obtain rfl : c = .black := hc.resolve_right Color.noConfusion
    obtain ⟨e', s', rl, rr, rfl, hrl, hrr⟩ := hr.eq_node
    rw [fixUp_right_red hl.not_red hrr.not_red]
    exact .mk (.red hl hrl) hrr

theorem fixUp_red_black (hl : Balanced l .black h) (hr : Balanced r .black h) :
    Balanced (fixUp (node e .red s l r)) .red h := by
  rw [fixUp_right_black hl hr]
  exact .red hl hr

/-! ### Insertion -/

/-- What insertion makes of a balanced node of colour `c`. -/
def Grown : Color → LlrbNode α → ℕ → Prop
  | .black, n, h => ∃ c, Balanced n c h
  | .red, n, h => Nearly n h

variable {K V : Type} {cmp : K → K → Ordering} {k : K} {v : V}

theorem innerInsert_grown {n : LlrbNode (K × V)} (hn : Balanced n c h) :
    Grown c (n.innerInsert cmp k v) h := by
  induction hn with
  | empty => exact ⟨.red, .red .empty .empty⟩
  | @red e s h l r hl hr ihl ihr =>
    rw [innerInsert]
    cases cmp k e.1 with
    | lt =>
      obtain ⟨c', hl'⟩ := ihl
      exact fixUp_red hl' hr (Or.inr rfl)
    | eq => exact .mk hl hr
    | gt =>
      obtain ⟨c', hr'⟩ := ihr
      exact fixUp_red hl hr' (Or.inl rfl)
  | @black e c s h l r hl hr ihl ihr =>
    rw [innerInsert]
    cases cmp k e.1 with
    | lt =>
      cases c with
      | black =>
        obtain ⟨c', hl'⟩ := ihl
        exact fixUp_black_any hl' hr
      | red => exact fixUp_black_nearly ihl hr
    | eq => exact ⟨.black, .black hl hr⟩
    | gt =>
      obtain ⟨c', hr'⟩ := ihr
      exact fixUp_black_any hl hr'

theorem Balanced.fixRootColor (hn : Balanced n c h) : ∃ h', Balanced n.fixRootColor .black h' := by
  cases hn with
  | empty => exact ⟨0, .empty⟩
  | red hl hr => exact ⟨_, .black hl hr⟩
  | black hl hr => exact ⟨_, .black hl hr⟩

/-- Insertion keeps a tree with a black root balanced. -/
theorem insert_balanced {n : LlrbNode (K × V)} (hn : Balanced n .black h) :
    ∃ h', Balanced (n.insert cmp k v) .black h' := by
  obtain ⟨c, hc⟩ : Grown .black (n.innerInsert cmp k v) h := innerInsert_grown hn
  exact hc.fixRootColor

/-! ### Removal -/

/-- A node from which an entry can be taken out.  Its entry satisfies `P` if its red child is the
right one. -/
inductive Ready (P : α → Prop) : LlrbNode α → Color → ℕ → Prop
  | empty : Ready P empty .black 0
  | red {e : α} {s h : ℕ} {l r : LlrbNode α} :
      Balanced l .black h → Balanced r .black h → Ready P (node e .red s l r) .red h
  | leftRed {e : α} {s h : ℕ} {l r : LlrbNode α} :
      Balanced l .red h → Balanced r .black h → Ready P (node e .black s l r) .black (h + 1)
  | rightRed {e : α} {s h : ℕ} {l r : LlrbNode α} :
      P e → Balanced l .black h → Balanced r .red h → Ready P (node e .black s l r) .black (h + 1)

theorem Ready.left_of_not {P : α → Prop} (hn : Ready P (node e c' s l r) c h) (he : ¬ P e) :
    Ready (fun _ => False) (node e c' s l r) c h := by
  cases hn with
  | red hl hr => exact .red hl hr
  | leftRed hl hr => exact .leftRed hl hr
  | rightRed he' _ _ => exact absurd he' he

theorem Ready.imp {P Q : α → Prop} (hPQ : ∀ e, P e → Q e) (hn : Ready P n c h) :
    Ready Q n c h := by
  cases hn with
  | empty => exact .empty
  | red hl hr => exact .red hl hr
  | leftRed hl hr => exact .leftRed hl hr
  | rightRed he hl hr => exact .rightRed (hPQ _ he) hl hr

/-- What taking out an entry makes of a node of colour `c`. -/
def Erased : Color → LlrbNode α → ℕ → Prop
  | .black, n, h => Balanced n .black h
  | .red, n, h => ∃ c, Balanced n c h

/-- A node whose left child is ready, made from one with the entry `e` and the left child `l₀`. -/
inductive DownLeft (e : α) (l₀ : LlrbNode α) : LlrbNode α → Color → ℕ → Prop
  | mk {e' : α} {c c' cl : Color} {s h hl : ℕ} {l r : LlrbNode α} :
      Ready (fun _ => False) l cl hl →
      (∀ m, Erased cl m hl → Erased c (fixUp (node e' c' s m r)) h) →
      (l₀.isEmpty = false → l.isEmpty = false) → (e' = e ∨ e ∈ l.toList) →
      DownLeft e l₀ (node e' c' s l r) c h

theorem prepareLeft_spec (hn : Ready (fun _ => False) (node e c' s l r) c h) :
    DownLeft e l (node e c' s l r).prepareLeft c h := by
  cases hn with
  | rightRed he _ _ => exact he.elim
  | @leftRed _ _ h _ _ hl hr =>
    have hstay : (node e .black s l r).prepareLeft = node e .black s l r := by
      simp [prepareLeft, hl.red_iff.2 rfl]
    rw [hstay]
    obtain ⟨el, sl, ll, lr, rfl, hll, hlr⟩ := hl.eq_node
    exact .mk (.red hll hlr) (fun _ hm => hm.elim fun _ hm => fixUp_black hm hr (Or.inr rfl)) id
      (Or.inl rfl)
  | red hl hr =>
    cases hl with
    | empty =>
      exact .mk .empty (fun m hm => ⟨_, fixUp_red_black hm hr⟩) id (Or.inl rfl)
    | @black el cll sl h ll lr hll hlr =>
      cases cll with
      | red =>
        have hstay : (node e .red s (node el .black sl ll lr) r).prepareLeft =
            node e .red s (node el .black sl ll lr) r := by
          simp [prepareLeft, hll.red_iff.2 rfl]
        rw [hstay]
        exact .mk (.leftRed hll hlr) (fun m hm => ⟨_, fixUp_red_black hm hr⟩) id (Or.inl rfl)
      | black =>
        obtain ⟨er, crl, sr, rl, rr, rfl, hrl, hrr⟩ := hr.eq_node_of_black
        cases crl with
        | black =>
          have hflip :
              (node e .red s (node el .black sl ll lr) (node er .black sr rl rr)).prepareLeft =
                node e .black s (node el .red sl ll lr) (node er .red sr rl rr) := by
            simp [prepareLeft, moveRedLeft, Color.opposite, hll.not_red, hrl.not_red]
          rw [hflip]
          exact .mk (.red hll hlr)
            (fun _ hm => hm.elim fun _ hm => fixUp_black_any hm (.red hrl hrr)) (fun _ => rfl)
            (Or.inl rfl)
        | red =>
          -- the right child has a red link to spare
          obtain ⟨q, sq, a, b, rfl, ha, hb⟩ := hrl.eq_node
          have hmove : (node e .red s (node el .black sl ll lr)
              (node er .black sr (node q .red sq a b) rr)).prepareLeft =
                node q .red s (rep e .black (node el .red sl ll lr) a) (rep er .black b rr) := by
            simp [prepareLeft, moveRedLeft, rep, Color.opposite, hll.not_red]
          rw [hmove]
          exact .mk (.leftRed (.red hll hlr) ha)
            (fun m hm => ⟨_, fixUp_red_black hm (.black hb hrr)⟩) (fun _ => rfl)
            (Or.inr (by simp))

/-- A node whose right child is ready, made from one with the entry `e`.  Either the entry stays
(`here`), or it has moved into the right child (`past`). -/
inductive DownRight (e : α) : LlrbNode α → Color → ℕ → Prop
  | here {c c' cr : Color} {s h hr : ℕ} {l r : LlrbNode α} :
      Ready (fun _ => False) r cr hr →
      (∀ e m, Erased cr m hr → Erased c (fixUp (node e c' s l m)) h) →
      (r.isEmpty = true → l.isEmpty = true ∧ Erased c (empty : LlrbNode α) h) →
      DownRight e (node e c' s l r) c h
  | past {e' : α} {c c' cr : Color} {s h hr : ℕ} {l r : LlrbNode α} :
      Ready (· = e) r cr hr →
      (∀ m, Erased cr m hr → Erased c (fixUp (node e' c' s l m)) h) →
      e ∈ r.toList → DownRight e (node e' c' s l r) c h

theorem prepareRight_spec {P : α → Prop} (hn : Ready P (node e c' s l r) c h) :
    DownRight e (node e c' s l r).prepareRight c h := by
  cases hn with
  | rightRed _ hl hr =>
    have hstay : (node e .black s l r).prepareRight = node e .black s l r := by
      simp [prepareRight, hl.not_red, hr.red_iff.2 rfl]
    rw [hstay]
    obtain ⟨er, sr, rl, rr, rfl, hrl, hrr⟩ := hr.eq_node
    exact .here (.red hrl hrr) (fun _ _ hm => hm.elim fun _ hm => fixUp_black hl hm (Or.inl rfl))
      (by simp)
  | leftRed hl hr =>
    obtain ⟨el, sl, ll, lr, rfl, hll, hlr⟩ := hl.eq_node
    have hrot : (node e .black s (node el .red sl ll lr) r).prepareRight =
        node el .black s ll (rep e .red lr r) := by
      simp [prepareRight, rep]
    rw [hrot]
    exact .past (.red hlr hr) (fun _ hm => hm.elim fun _ hm => fixUp_black hll hm (Or.inl rfl))
      (by simp)
  | red hl hr =>
    cases hr with
    | empty =>
      have hstay : (node e .red s l .empty).prepareRight = node e .red s l .empty := by
        simp [prepareRight, hl.not_red, isEmpty]
      rw [hstay]
      refine .here .empty (fun e m hm => ⟨_, fixUp_red_black hl hm⟩) fun _ => ⟨?_, _, .empty⟩
      cases hl
      rfl
    | @black er crl sr h rl rr hrl hrr =>
      cases crl with
      | red =>
        have hstay : (node e .red s l (node er .black sr rl rr)).prepareRight =
            node e .red s l (node er .black sr rl rr) := by
          simp [prepareRight, hl.not_red, hrl.red_iff.2 rfl]
        rw [hstay]
        exact .here (.leftRed hrl hrr) (fun e m hm => ⟨_, fixUp_red_black hl hm⟩)
          (by simp)
      | black =>
        obtain ⟨el, cll, sl, ll, lr, rfl, hll, hlr⟩ := hl.eq_node_of_black
        cases cll with
        | black =>
          have hflip :
              (node e .red s (node el .black sl ll lr) (node er .black sr rl rr)).prepareRight =
                node e .black s (node el .red sl ll lr) (node er .red sr rl rr) := by
            simp [prepareRight, moveRedRight, Color.opposite, hll.not_red, hrl.not_red]
          rw [hflip]
          exact .here (.red hrl hrr)
            (fun _ _ hm => hm.elim fun _ hm => fixUp_black_any (.red hll hlr) hm) (by simp)
        | red =>
          -- the left child has a red link to spare
          obtain ⟨q, sq, a, b, rfl, ha, hb⟩ := hll.eq_node
          have hmove : (node e .red s (node el .black sl (node q .red sq a b) lr)
              (node er .black sr rl rr)).prepareRight =
                node el .red s (node q .black sq a b)
                  (rep e .black lr (node er .red sr rl rr)) := by
            simp [prepareRight, moveRedRight, rep, Color.opposite, hrl.not_red]
          rw [hmove]
          exact .past (.rightRed rfl hlr (.red hrl hrr))
            (fun m hm => ⟨_, fixUp_red_black (.black ha hb) hm⟩) (by simp)

theorem Ready.isEmpty_right {P : α → Prop} (hn : Ready P (node e c' s l r) c h)
    (hl : l.isEmpty = true) (hP : ¬ P e) : r = LlrbNode.empty ∧ c = .red ∧ h = 0 := by
  cases hn with
  | red hl' hr =>
    cases hl' with
    | empty =>
      cases hr
      exact ⟨rfl, rfl, rfl⟩
    | black _ _ => cases hl
  | leftRed hl' _ =>
    cases hl' with
    | red _ _ => cases hl
  | rightRed he _ _ => exact absurd he hP

/-- `removeMin` takes out the first entry. -/
theorem removeMin_spec (hn : Ready (fun _ => False) n c h) :
    Erased c n.removeMin h ∧ n.removeMin.toList = n.toList.tail := by
  induction hlen : n.toList.length using Nat.strong_induction_on generalizing n c h with
  | _ len ih =>
  cases n with
  | empty =>
    cases hn
    rw [removeMin]
    exact ⟨.empty, rfl⟩
  | node e c' s l r =>
    cases hl : l.isEmpty with
    | true =>
      obtain ⟨rfl, rfl, rfl⟩ := hn.isEmpty_right hl id
      rw [removeMin, if_pos hl]
      exact ⟨⟨_, .empty⟩, by simp [isEmpty_iff.1 hl]⟩
    | false =>
      rw [removeMin_node hl]
      have hdown := prepareLeft_spec hn
      have hlist := toList_prepareLeft (node e c' s l r)
      generalize (node e c' s l r).prepareLeft = n' at hdown hlist
      obtain ⟨hready, hback, hne, _⟩ := hdown
      have hlt := length_left_lt (isEmpty_congr hlist)
      rw [hlist, hlen] at hlt
      obtain ⟨hbal, htail⟩ := ih _ hlt hready rfl
      refine ⟨hback _ hbal, ?_⟩
      rw [toList_fixUp, ← hlist, setLeft_node, left_node, toList_node, toList_node, htail,
        List.tail_append_of_ne_nil]
      exact fun hnil => Bool.noConfusion ((hne hl).symm.trans (isEmpty_iff.2 hnil))

theorem isEmpty_of_min {α : Type} {n : LlrbNode α} (hmin : n.min = empty) : n.isEmpty = true := by
  cases hn : n.isEmpty with
  | true => rfl
  | false =>
    obtain ⟨e, c, s, l, r, hmin', -⟩ := exists_min hn
    rw [hmin] at hmin'
    cases hmin'

theorem toList_of_min {α : Type} {n l r : LlrbNode α} {e : α} {c : Color} {s : ℕ}
    (hmin : n.min = node e c s l r) : n.toList = e :: n.toList.tail := by
  cases hn : n.isEmpty with
  | true =>
    rw [min_of_isEmpty hn] at hmin
    cases hmin
  | false =>
    obtain ⟨e', c', s', l', r', hmin', hlist⟩ := exists_min hn
    rw [hmin] at hmin'
    cases hmin'
    exact hlist

open SortedList Std

variable [TransCmp cmp]

/-- A step down to the left, whatever takes the key out of the left child. -/
theorem left_step {e : K × V} {l r n' : LlrbNode (K × V)}
    (hn' : (node e c' s l r).prepareLeft = n')
    (hn : Ready (fun e => cmp k e.1 ≠ .lt) (node e c' s l r) c h)
    (hinc : Increasing Prod.fst cmp (node e c' s l r).toList) (hlt : cmp k e.1 = .lt) :
    ∃ cl hl, Ready (fun e => cmp k e.1 ≠ .lt) n'.left cl hl ∧
      Increasing Prod.fst cmp n'.left.toList ∧
      ∀ m, Erased cl m hl → m.toList = SortedList.erase Prod.fst cmp k n'.left.toList →
        Erased c (n'.setLeft m).fixUp h ∧ (n'.setLeft m).fixUp.toList =
          SortedList.erase Prod.fst cmp k (node e c' s l r).toList := by
  have hdown := prepareLeft_spec (hn.left_of_not fun hne => hne hlt)
  have hlist := toList_prepareLeft (node e c' s l r)
  rw [hn'] at hdown hlist
  obtain @⟨e', _, c'', cl, s', _, hl, l', r', hready, hback, _, he⟩ := hdown
  rw [← hlist] at hinc ⊢
  obtain ⟨hincl, _, hbefore, _⟩ := increasing_append_cons.1 hinc
  have hlt' : cmp k e'.1 = .lt := by
    rcases he with rfl | he
    · exact hlt
    · exact TransCmp.lt_trans hlt (hbefore e he)
  refine ⟨cl, hl, hready.imp fun _ => False.elim, hincl, fun m hm herase => ⟨hback m hm, ?_⟩⟩
  have herase' : m.toList = SortedList.erase Prod.fst cmp k l'.toList := herase
  rw [toList_fixUp, setLeft_node, toList_node, toList_node, herase', erase_append_cons hlt']

/-- A step to the right, whatever takes the key out of the right child, and a step at the entry,
whatever takes the next entry out of the right child. -/
theorem right_step {e : K × V} {l r n' : LlrbNode (K × V)}
    (hn' : (node e c' s l r).prepareRight = n')
    (hn : Ready (fun e => cmp k e.1 ≠ .lt) (node e c' s l r) c h)
    (hinc : Increasing Prod.fst cmp (node e c' s l r).toList) (hlt : cmp k e.1 ≠ .lt) :
    ∃ cr hr, Ready (fun e => cmp k e.1 ≠ .lt) n'.right cr hr ∧
      Increasing Prod.fst cmp n'.right.toList ∧
      (n'.hasKey cmp k = false → ∀ m, Erased cr m hr →
        m.toList = SortedList.erase Prod.fst cmp k n'.right.toList →
        Erased c (n'.setRight m).fixUp h ∧ (n'.setRight m).fixUp.toList =
          SortedList.erase Prod.fst cmp k (node e c' s l r).toList) ∧
      (n'.hasKey cmp k = true → Ready (fun _ => False) n'.right cr hr ∧
        (∀ x ∈ n'.right.toList, cmp k x.1 = .lt) ∧
        (n'.right.isEmpty = true → Erased c (LlrbNode.empty : LlrbNode (K × V)) h ∧
          SortedList.erase Prod.fst cmp k (node e c' s l r).toList = []) ∧
        ∀ e₁ m, Erased cr m hr → n'.right.toList = e₁ :: m.toList →
          Erased c ((n'.setEntry e₁).setRight m).fixUp h ∧
            ((n'.setEntry e₁).setRight m).fixUp.toList =
              SortedList.erase Prod.fst cmp k (node e c' s l r).toList) := by
  have hdown := prepareRight_spec hn
  have hlist := toList_prepareRight (node e c' s l r)
  rw [hn'] at hdown hlist
  rw [← hlist] at hinc ⊢
  cases hdown with
  | @here _ c'' cr s' _ hr l' r' hready hback hempty =>
    obtain ⟨_, hincr, _, hafter⟩ := increasing_append_cons.1 hinc
    refine ⟨cr, hr, hready.imp fun _ => False.elim, hincr, fun hkey m hm herase => ?_,
      fun hkey => ?_⟩
    · have hk : cmp k e.1 = .gt := by
        cases hk : cmp k e.1 with
        | lt => exact absurd hk hlt
        | eq => simp [hasKey, hk] at hkey
        | gt => rfl
      have herase' : m.toList = SortedList.erase Prod.fst cmp k r'.toList := herase
      rw [toList_node, erase_append_cons_of_gt hinc hk, ← herase', setRight_node]
      exact ⟨hback e m hm, by simp⟩
    · have hk : cmp k e.1 = .eq := by simpa [hasKey] using hkey
      refine ⟨hready, fun x hx => TransCmp.lt_of_eq_of_lt hk (hafter x hx), fun hr' => ?_,
        fun e₁ m hm hlist' => ⟨hback e₁ m hm, ?_⟩⟩
      · obtain ⟨hl', hgone⟩ := hempty hr'
        have hr'' : r'.toList = [] := isEmpty_iff.1 hr'
        rw [toList_node, erase_append_cons_of_eq hinc hk, isEmpty_iff.1 hl', hr'']
        exact ⟨hgone, rfl⟩
      · have hlist'' : r'.toList = e₁ :: m.toList := hlist'
        rw [toList_node, erase_append_cons_of_eq hinc hk, setEntry, setRight_node, toList_fixUp,
          toList_node, hlist'']
  | @past e' _ c'' cr s' _ hr l' r' hready hback he =>
    obtain ⟨_, hincr, _, hafter⟩ := increasing_append_cons.1 hinc
    -- the entry that came up lies before `e`, and so before the key
    have hk : cmp k e'.1 = .gt := by
      have he' := hafter e he
      cases hke : cmp k e.1 with
      | lt => exact absurd hke hlt
      | eq => exact OrientedCmp.gt_of_lt (TransCmp.lt_of_lt_of_eq he' (OrientedCmp.eq_symm hke))
      | gt => exact TransCmp.gt_trans hke (OrientedCmp.gt_of_lt he')
    refine ⟨cr, hr, hready.imp fun x (hx : x = e) => hx ▸ hlt, hincr,
      fun _ m hm herase => ⟨hback m hm, ?_⟩, fun hkey => ?_⟩
    · have herase' : m.toList = SortedList.erase Prod.fst cmp k r'.toList := herase
      rw [toList_node, erase_append_cons_of_gt hinc hk, ← herase', setRight_node, toList_fixUp,
        toList_node]
    · simp [hasKey, hk] at hkey

/-- `innerErase` takes out the entry with the key, if there is one. -/
theorem innerErase_spec {n : LlrbNode (K × V)} (hn : Ready (fun e => cmp k e.1 ≠ .lt) n c h)
    (hinc : Increasing Prod.fst cmp n.toList) : Erased c (n.innerErase cmp k) h ∧
      (n.innerErase cmp k).toList = SortedList.erase Prod.fst cmp k n.toList := by
  revert c h
  induction n using LlrbNode.innerErase.induct cmp k with
  | case1 =>
    intro c h hn
    cases hn
    rw [innerErase]
    exact ⟨.empty, rfl⟩
  | case2 e c' s l r hlt n ih =>
    intro c h hn
    obtain ⟨cl, hl, hready, hincl, hstep⟩ := left_step rfl hn hinc hlt
    obtain ⟨hbal, herase⟩ := ih hincl hready
    rw [innerErase, if_pos hlt]
    exact hstep _ hbal herase
  | case3 e c' s l r hlt n hkey hmin =>
    intro c h hn
    obtain ⟨cr, hr, -, -, -, hstep⟩ := right_step rfl hn hinc hlt
    obtain ⟨-, -, hgone, -⟩ := hstep hkey
    obtain ⟨hgone, hnil⟩ := hgone (isEmpty_of_min hmin)
    rw [innerErase, if_neg hlt]
    simp only [n] at hkey hmin
    simp only [hkey, if_true, hmin]
    exact ⟨hgone, hnil.symm⟩
  | case4 e c' s l r hlt n hkey e₁ c₁ s₁ l₁ r₁ hmin =>
    intro c h hn
    obtain ⟨cr, hr, -, -, -, hstep⟩ := right_step rfl hn hinc hlt
    obtain ⟨hready, -, -, hstep⟩ := hstep hkey
    obtain ⟨hbal, htail⟩ := removeMin_spec hready
    have hlist : n.right.toList = e₁ :: n.right.removeMin.toList := by
      rw [htail]
      exact toList_of_min hmin
    rw [innerErase, if_neg hlt]
    simp only [n] at hkey hmin
    simp only [hkey, if_true, hmin]
    exact hstep e₁ _ hbal hlist
  | case5 e c' s l r hlt n hkey ih =>
    intro c h hn
    obtain ⟨cr, hr, hready, hincr, hstep, -⟩ := right_step rfl hn hinc hlt
    obtain ⟨hbal, herase⟩ := ih hincr hready
    rw [innerErase, if_neg hlt]
    simp only [n] at hkey
    simp only [hkey, Bool.false_eq_true, if_false]
    exact hstep (by simpa using hkey) _ hbal herase

/-! ### The root

At the root the way down may start at a black node with two black children.  What comes out is what
would come out if the root were red, up to the colour of the root. -/

omit [TransCmp cmp]

theorem fixRootColor_eq_setColor (n : LlrbNode α) : n.fixRootColor = n.setColor .black := by
  rw [fixRootColor]
  cases n with
  | empty => rfl
  | node e c s l r => cases c <;> rfl

/-- The same but for the colour of the root. -/
def Alike (n m : LlrbNode α) : Prop := n.setColor .black = m.setColor .black

theorem alike_node {m : LlrbNode α} : Alike (node e c s l r) m ↔ ∃ c', m = node e c' s l r := by
  cases m with
  | empty => simp [Alike, setColor]
  | node e' c' s' l' r' => simp [Alike, setColor, eq_comm]

theorem Alike.eq_empty {m : LlrbNode α} (hm : Alike empty m) : m = empty := by
  cases m with
  | empty => rfl
  | node e c s l r => cases hm

namespace Alike

variable {m : LlrbNode α} (hm : Alike n m)

include hm

theorem left : n.left = m.left := by
  cases n with
  | empty => rw [hm.eq_empty]
  | node e c s l r =>
    obtain ⟨c', rfl⟩ := alike_node.1 hm
    rfl

theorem right : n.right = m.right := by
  cases n with
  | empty => rw [hm.eq_empty]
  | node e c s l r =>
    obtain ⟨c', rfl⟩ := alike_node.1 hm
    rfl

theorem map (f : LlrbNode α → LlrbNode α)
    (hf : ∀ e c c' s l r, Alike (f (node e c s l r)) (f (node e c' s l r))) :
    Alike (f n) (f m) := by
  cases n with
  | empty =>
    rw [hm.eq_empty]
    rfl
  | node e c s l r =>
    obtain ⟨c', rfl⟩ := alike_node.1 hm
    exact hf e c c' s l r

theorem setSize : Alike n.setSize m.setSize := hm.map _ fun _ _ _ _ _ _ => rfl

theorem rotateLeft : Alike n.rotateLeft m.rotateLeft :=
  hm.map _ fun e c c' s l r => by cases r <;> rfl

theorem rotateRight : Alike n.rotateRight m.rotateRight :=
  hm.map _ fun e c c' s l r => by cases l <;> rfl

theorem flipColor : Alike n.flipColor m.flipColor :=
  hm.map _ fun e c c' s l r => by cases l <;> cases r <;> rfl

theorem setLeft (l : LlrbNode α) : Alike (n.setLeft l) (m.setLeft l) :=
  hm.map (LlrbNode.setLeft · l) fun _ _ _ _ _ _ => rfl

theorem setRight (r : LlrbNode α) : Alike (n.setRight r) (m.setRight r) :=
  hm.map (LlrbNode.setRight · r) fun _ _ _ _ _ _ => rfl

theorem setEntry (e : α) : Alike (n.setEntry e) (m.setEntry e) :=
  hm.map (LlrbNode.setEntry · e) fun _ _ _ _ _ _ => rfl

/-- A step that is taken or not according to the children. -/
theorem step (p : LlrbNode α → LlrbNode α → Bool) {f : LlrbNode α → LlrbNode α}
    (hf : Alike (f n) (f m)) : Alike (if p n.left n.right then f n else n)
      (if p m.left m.right then f m else m) := by
  rw [hm.left, hm.right]
  split_ifs
  · exact hf
  · exact hm

theorem fixUp : Alike n.fixUp m.fixUp := by
  have h₁ := hm.setSize.step (fun l r => r.red && !l.red) hm.setSize.rotateLeft
  have h₂ := h₁.step (fun l _ => l.red && l.left.red) h₁.rotateRight
  exact h₂.step (fun l r => l.red && r.red) h₂.flipColor

theorem moveRedLeft : Alike n.moveRedLeft m.moveRedLeft := by
  have h₁ := hm.flipColor
  rw [LlrbNode.moveRedLeft, LlrbNode.moveRedLeft]
  generalize n.flipColor = n' at h₁ ⊢
  cases n' with
  | empty =>
    rw [h₁.eq_empty]
    rfl
  | node e c s l r =>
    obtain ⟨c', hm'⟩ := alike_node.1 h₁
    rw [hm']
    have h₂ : Alike (node e c s l r.rotateRight) (node e c' s l r.rotateRight) := rfl
    dsimp only
    split_ifs
    · exact h₂.rotateLeft.flipColor
    · rfl

theorem moveRedRight : Alike n.moveRedRight m.moveRedRight :=
  hm.flipColor.step (fun l _ => l.left.red) (f := fun n => n.rotateRight.flipColor)
    hm.flipColor.rotateRight.flipColor

theorem prepareLeft : Alike n.prepareLeft m.prepareLeft :=
  hm.step (fun l _ => !l.isEmpty && !l.red && !l.left.red) hm.moveRedLeft

theorem prepareRight : Alike n.prepareRight m.prepareRight := by
  have h₁ := hm.step (fun l _ => l.red) hm.rotateRight
  exact h₁.step (fun _ r => !r.isEmpty && !r.red && !r.left.red) h₁.moveRedRight

theorem fixRootColor_eq : n.fixRootColor = m.fixRootColor := by
  rw [LlrbNode.fixRootColor_eq_setColor, LlrbNode.fixRootColor_eq_setColor]
  exact hm

end Alike

theorem Alike.hasKey {n m : LlrbNode (K × V)} (hm : Alike n m) :
    n.hasKey cmp k = m.hasKey cmp k := by
  cases n with
  | empty => rw [hm.eq_empty]
  | node e c s l r =>
    obtain ⟨c', rfl⟩ := alike_node.1 hm
    rfl

theorem Alike.innerErase {n m : LlrbNode (K × V)} (hm : Alike n m) :
    Alike (n.innerErase cmp k) (m.innerErase cmp k) := by
  refine hm.map (LlrbNode.innerErase cmp k) fun e c c' s l r => ?_
  have hnode : Alike (node e c s l r) (node e c' s l r) := rfl
  rw [LlrbNode.innerErase, LlrbNode.innerErase]
  split_ifs with hlt
  · have h₁ := hnode.prepareLeft
    simp only [h₁.left]
    exact (h₁.setLeft _).fixUp
  · have h₁ := hnode.prepareRight
    simp only [h₁.right, h₁.hasKey]
    split_ifs
    · cases (node e c' s l r).prepareRight.right.min with
      | empty => rfl
      | node e' c'' s' l' r' => exact ((h₁.setEntry e').setRight _).fixUp
    · exact (h₁.setRight _).fixUp

variable [TransCmp cmp]

/-- Removal keeps a tree with a black root balanced, and takes out the entry with the key. -/
theorem erase_spec {n : LlrbNode (K × V)} (hn : Balanced n .black h)
    (hinc : Increasing Prod.fst cmp n.toList) : (∃ h', Balanced (n.erase cmp k) .black h') ∧
      (n.erase cmp k).toList = SortedList.erase Prod.fst cmp k n.toList := by
  suffices hready : ∀ {m : LlrbNode (K × V)} {c h}, Alike n m → m.toList = n.toList →
      Ready (fun e => cmp k e.1 ≠ .lt) m c h → (∃ h', Balanced (n.erase cmp k) .black h') ∧
        (n.erase cmp k).toList = SortedList.erase Prod.fst cmp k n.toList by
    cases hn with
    | empty => exact hready rfl rfl .empty
    | @black e c s h l r hl hr =>
      cases c with
      | red => exact hready rfl rfl (.leftRed hl hr)
      | black => exact hready (m := node e .red s l r) rfl rfl (.red hl hr)
  intro m c h hm hlist hm'
  have hinc' : Increasing Prod.fst cmp m.toList := hlist ▸ hinc
  obtain ⟨hbal, herase⟩ := innerErase_spec hm' hinc'
  have heq : n.erase cmp k = (m.innerErase cmp k).fixRootColor := hm.innerErase.fixRootColor_eq
  rw [heq, toList_fixRootColor, herase, hlist]
  refine ⟨?_, rfl⟩
  cases c with
  | black => exact hbal.fixRootColor
  | red => exact hbal.choose_spec.fixRootColor

end SmartWeather.Firestore.LlrbNode
