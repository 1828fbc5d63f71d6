import SmartWeather.Firestore.TreeSortedMap

/-!
# The trees of the client's dictionaries

The document sets of the client keep their documents in trees of an older make.  An
`FSTLLRBValueNode` turns and flips as an `LlrbNode` with two children does (`rotateLeft`,
`moveRedLeft`, `fixUp` and so on are the same; its `count` is what `fixUp` puts into `size`), but it
is changed by functions of its own: `insertKey` calls `fixUp` on a node that it has found, too, and
`remove` goes on to remove the key below the node that it has just replaced.

The key is not there any more, so that this takes nothing out.  It may turn nodes, though, and it
starts at a node that is not made ready.  `remove_missing` says that it leaves the tree as balanced
as it was.
-/

namespace SmartWeather.Firestore.LlrbNode

open SortedList Std

variable {α K V : Type} {cmp : K → K → Ordering} {k : K} {v : V}

/-! ### The source -/

/-- `insertKey:forValue:withComparator:`. -/
def insertKey (cmp : K → K → Ordering) (key : K) (value : V) :
    LlrbNode (K × V) → LlrbNode (K × V)
  | empty => rep (key, value) .red empty empty
  | node (key', value') color size left right =>
    match cmp key key' with
    | .lt => fixUp (node (key', value') color size (insertKey cmp key value left) right)
    | .eq => fixUp (node (key', value) color size left right)
    | .gt => fixUp (node (key', value') color size left (insertKey cmp key value right))

theorem length_removeMin_le (n : LlrbNode α) : n.removeMin.toList.length ≤ n.toList.length := by
  induction n using LlrbNode.removeMin.induct with
  | case1 =>
    rw [removeMin]
  | case2 e c s l r hl =>
    rw [removeMin, if_pos hl]
    exact Nat.zero_le _
  | case3 e c s l r hl n n' ih =>
    have hlist : n'.toList = n.toList := by
      simp only [n']
      split_ifs <;> simp
    have hnode : (node e c s l r).removeMin = (n'.setLeft n'.left.removeMin).fixUp := by
      rw [removeMin, if_neg hl]
      rfl
    have hlen : (node e c s l r).toList.length = n'.toList.length := congrArg List.length hlist.symm
    rw [hnode, toList_fixUp, hlen]
    generalize n' = m at ih
    cases m with
    | empty => exact Nat.le_refl _
    | node e' c' s' l' r' =>
      simp only [setLeft_node, left_node, toList_node, List.length_append] at ih ⊢
      omega

/-- `remove:withComparator:`. -/
def remove (cmp : K → K → Ordering) (key : K) : LlrbNode (K × V) → LlrbNode (K × V)
  | empty => empty
  | node entry color size left right =>
    if cmp key entry.1 = .lt then
      let n := (node entry color size left right).prepareLeft
      (n.setLeft (n.left.remove cmp key)).fixUp
    else
      let n := (node entry color size left right).prepareRight
      if n.hasKey cmp key then
        match n.right.min with
        | empty => empty
        | node smallest _ _ _ _ =>
          -- there is no `else` before the removal from the right child
          ((n.setEntry smallest).setRight (n.right.removeMin.remove cmp key)).fixUp
      else (n.setRight (n.right.remove cmp key)).fixUp
termination_by n => n.toList.length
decreasing_by
  · have hlist : n.toList = (node entry color size left right).toList := toList_prepareLeft _
    exact hlist ▸ length_left_lt (isEmpty_congr hlist)
  · have hlist : n.toList = (node entry color size left right).toList := toList_prepareRight _
    exact hlist ▸ (length_removeMin_le _).trans_lt (length_right_lt (isEmpty_congr hlist))
  · have hlist : n.toList = (node entry color size left right).toList := toList_prepareRight _
    exact hlist ▸ length_right_lt (isEmpty_congr hlist)

/-! ### Removal of a key that is not there -/

/-- Two red children become black again. -/
theorem fixUp_unflip {e : α} {c : Color} {s h : ℕ} {l r : LlrbNode α} (hl : Balanced l .red h)
    (hr : Balanced r .red h) : ∃ s' l' r', fixUp (node e c s l r) = node e c.opposite s' l' r' ∧
      Balanced l' .black (h + 1) ∧ Balanced r' .black (h + 1) := by
  obtain ⟨el, sl, ll, lr, rfl, hll, hlr⟩ := hl.eq_node
  obtain ⟨er, sr, rl, rr, rfl, hrl, hrr⟩ := hr.eq_node
  refine ⟨sl + 1 + sr, node el .black sl ll lr, node er .black sr rl rr, ?_, .black hll hlr,
    .black hrl hrr⟩
  simp [fixUp, setSize, rep, hll.not_red, Color.opposite]

/-- What the way down to the left makes of a node with two black children: nothing, a node with two
red children, or a node with two black children again. -/
theorem prepareLeft_of_black {e : α} {c : Color} {s h : ℕ} {l r : LlrbNode α}
    (hl : Balanced l .black h) (hr : Balanced r .black h) :
    (node e c s l r).prepareLeft = node e c s l r ∨
      (∃ h' l' r', h = h' + 1 ∧ (node e c s l r).prepareLeft = node e c.opposite s l' r' ∧
        Balanced l' .red h' ∧ Balanced r' .red h') ∨
      ∃ e' s' l' r', (node e c s l r).prepareLeft = node e' c s' l' r' ∧
        Balanced l' .black h ∧ Balanced r' .black h := by
  cases hl with
  | empty => exact Or.inl rfl
  | @black el cll sl h ll lr hll hlr =>
    cases cll with
    | red =>
      left
      simp [prepareLeft, hll.red_iff.2 rfl]
    | black =>
      right
      obtain ⟨er, crl, sr, rl, rr, rfl, hrl, hrr⟩ := hr.eq_node_of_black
      cases crl with
      | black =>
        left
        refine ⟨h, node el .red sl ll lr, node er .red sr rl rr, rfl, ?_, .red hll hlr,
          .red hrl hrr⟩
        simp [prepareLeft, moveRedLeft, Color.opposite, hll.not_red, hrl.not_red]
      | red =>
        right
        obtain ⟨q, sq, a, b, rfl, ha, hb⟩ := hrl.eq_node
        refine ⟨q, s, rep e .black (node el .red sl ll lr) a, rep er .black b rr, ?_,
          .black (.red hll hlr) ha, .black hb hrr⟩
        cases c <;> simp [prepareLeft, moveRedLeft, rep, Color.opposite, hll.not_red]

/-- The key lies before all entries of a balanced tree.  What is left has the same colour and
height. -/
theorem remove_missing {n : LlrbNode (K × V)} {c : Color} {h : ℕ} (hn : Balanced n c h)
    (hk : ∀ e ∈ n.toList, cmp k e.1 = .lt) :
    Balanced (n.remove cmp k) c h ∧ (n.remove cmp k).toList = n.toList := by
  induction hlen : n.toList.length using Nat.strong_induction_on generalizing n c h with
  | _ len ih =>
  cases n with
  | empty =>
    rw [remove]
    exact ⟨hn, rfl⟩
  | node e c' s l r =>
    -- the way down to the left, and what it leaves of the left child
    have hstep : ∀ {e₂ c₂ s₂ l₂ r₂ c₃ h₃},
        (node e c' s l r).prepareLeft = node e₂ c₂ s₂ l₂ r₂ → Balanced l₂ c₃ h₃ →
        ∃ m, Balanced m c₃ h₃ ∧ (node e c' s l r).remove cmp k = fixUp (node e₂ c₂ s₂ m r₂) ∧
          (fixUp (node e₂ c₂ s₂ m r₂)).toList = (node e c' s l r).toList := by
      intro e₂ c₂ s₂ l₂ r₂ c₃ h₃ hprepare hl₂
      have hlist := toList_prepareLeft (node e c' s l r)
      rw [hprepare] at hlist
      have hlt : l₂.toList.length < len := by
        rw [← hlen, ← hlist, toList_node, List.length_append, List.length_cons]
        omega
      obtain ⟨hbal, hsame⟩ := ih _ hlt hl₂ (fun x hx => hk x (by
        rw [← hlist, toList_node]
        exact List.mem_append_left _ hx)) rfl
      refine ⟨_, hbal, ?_, ?_⟩
      · rw [remove, if_pos (hk e (by simp))]
        simp only [hprepare]
        rfl
      · rw [toList_fixUp, ← hlist, toList_node, toList_node, hsame]
    -- a node with two black children stays as it is in the end
    have hblack : ∀ {h'}, Balanced l .black h' → Balanced r .black h' →
        (∀ {e₂ : K × V} {s₂ l₂ r₂}, Balanced l₂ .black h' → Balanced r₂ .black h' →
          Balanced (node e₂ c' s₂ l₂ r₂) c h) →
        Balanced ((node e c' s l r).remove cmp k) c h ∧
          ((node e c' s l r).remove cmp k).toList = (node e c' s l r).toList := by
      intro h' hl hr hnode
      rcases prepareLeft_of_black (e := e) (c := c') (s := s) hl hr with hprepare |
        ⟨h'', l', r', rfl, hprepare, hl', hr'⟩ | ⟨e', s', l', r', hprepare, hl', hr'⟩
      · obtain ⟨m, hm, heq, hlist⟩ := hstep hprepare hl
        rw [heq]
        refine ⟨?_, hlist⟩
        rw [fixUp_right_black hm hr]
        exact hnode hm hr
      · obtain ⟨m, hm, heq, hlist⟩ := hstep hprepare hl'
        obtain ⟨s₂, l₂, r₂, hfix, hl₂, hr₂⟩ := fixUp_unflip (e := e) (c := c'.opposite) (s := s)
          hm hr'
        have hcolor : c'.opposite.opposite = c' := by cases c' <;> rfl
        rw [heq]
        refine ⟨?_, hlist⟩
        rw [hfix, hcolor]
        exact hnode hl₂ hr₂
      · obtain ⟨m, hm, heq, hlist⟩ := hstep hprepare hl'
        rw [heq]
        refine ⟨?_, hlist⟩
        rw [fixUp_right_black hm hr']
        exact hnode hm hr'
    cases hn with
    | red hl hr => exact hblack hl hr fun hl₂ hr₂ => .red hl₂ hr₂
    | @black _ cl _ h' _ _ hl hr =>
      cases cl with
      | black => exact hblack hl hr fun hl₂ hr₂ => .black hl₂ hr₂
      | red =>
        have hstay : (node e .black s l r).prepareLeft = node e .black s l r := by
          simp [prepareLeft, hl.red_iff.2 rfl]
        obtain ⟨m, hm, heq, hlist⟩ := hstep hstay hl
        rw [heq]
        exact ⟨fixUp_black hm hr (Or.inr rfl), hlist⟩

theorem Erased.remove_missing {n : LlrbNode (K × V)} {c : Color} {h : ℕ} (hn : Erased c n h)
    (hk : ∀ e ∈ n.toList, cmp k e.1 = .lt) :
    Erased c (n.remove cmp k) h ∧ (n.remove cmp k).toList = n.toList := by
  cases c with
  | black => exact LlrbNode.remove_missing hn hk
  | red =>
    obtain ⟨c, hn⟩ := hn
    obtain ⟨hbal, hlist⟩ := LlrbNode.remove_missing hn hk
    exact ⟨⟨c, hbal⟩, hlist⟩

/-! ### Removal -/

/-- `remove` takes out the entry with the key, if there is one. -/
theorem remove_spec [TransCmp cmp] {n : LlrbNode (K × V)} {c : Color} {h : ℕ}
    (hn : Ready (fun e => cmp k e.1 ≠ .lt) n c h) (hinc : Increasing Prod.fst cmp n.toList) :
    Erased c (n.remove cmp k) h ∧
      (n.remove cmp k).toList = SortedList.erase Prod.fst cmp k n.toList := by
  revert c h
  induction n using LlrbNode.remove.induct cmp k with
  | case1 =>
    intro c h hn
    cases hn
    rw [remove]
    exact ⟨.empty, rfl⟩
  | case2 e c' s l r hlt n ih =>
    intro c h hn
    obtain ⟨cl, hl, hready, hincl, hstep⟩ := left_step rfl hn hinc hlt
    obtain ⟨hbal, herase⟩ := ih hincl hready
    rw [remove, if_pos hlt]
    exact hstep _ hbal herase
  | case3 e c' s l r hlt n hkey hmin =>
    intro c h hn
    obtain ⟨cr, hr, -, -, -, hstep⟩ := right_step rfl hn hinc hlt
    obtain ⟨-, -, hgone, -⟩ := hstep hkey
    obtain ⟨hgone, hnil⟩ := hgone (isEmpty_of_min hmin)
    rw [remove, if_neg hlt]
    simp only [n] at hkey hmin
    simp only [hkey, if_true, hmin]
    exact ⟨hgone, hnil.symm⟩
  | case4 e c' s l r hlt n hkey e₁ c₁ s₁ l₁ r₁ hmin _ =>
    intro c h hn
    obtain ⟨cr, hr, -, -, -, hstep⟩ := right_step rfl hn hinc hlt
    obtain ⟨hready, hafter, -, hstep⟩ := hstep hkey
    obtain ⟨hbal, htail⟩ := removeMin_spec hready
    have hmissing : ∀ x ∈ n.right.removeMin.toList, cmp k x.1 = .lt := by
      rw [htail]
      exact fun x hx => hafter x (List.mem_of_mem_tail hx)
    obtain ⟨hbal, hsame⟩ := hbal.remove_missing hmissing
    have hlist : n.right.toList = e₁ :: (n.right.removeMin.remove cmp k).toList := by
      rw [hsame, htail]
      exact toList_of_min hmin
    rw [remove, if_neg hlt]
    simp only [n] at hkey hmin
    simp only [hkey, if_true, hmin]
    exact hstep e₁ _ hbal hlist
  | case5 e c' s l r hlt n hkey ih =>
    intro c h hn
    obtain ⟨cr, hr, hready, hincr, hstep, -⟩ := right_step rfl hn hinc hlt
    obtain ⟨hbal, herase⟩ := ih hincr hready
    rw [remove, if_neg hlt]
    simp only [n] at hkey
    simp only [hkey, Bool.false_eq_true, if_false]
    exact hstep (by simpa using hkey) _ hbal herase

theorem Sized.remove {n : LlrbNode (K × V)} (hn : n.Sized) : (n.remove cmp k).Sized := by
  induction n using LlrbNode.remove.induct cmp k with
  | case1 =>
    rw [LlrbNode.remove]
    exact hn
  | case2 e c s l r hlt n ih =>
    rw [LlrbNode.remove, if_pos hlt]
    exact hn.prepareLeft.setLeft_fixUp (ih hn.prepareLeft.left)
  | case3 e c s l r hlt n hkey hmin =>
    rw [LlrbNode.remove, if_neg hlt]
    simp only [n] at hkey hmin
    simp only [hkey, if_true, hmin]
    trivial
  | case4 e c s l r hlt n hkey e' c' s' l' r' hmin ih =>
    rw [LlrbNode.remove, if_neg hlt]
    simp only [n] at hkey hmin
    simp only [hkey, if_true, hmin]
    exact (hn.prepareRight.setEntry e').setRight_fixUp (ih hn.prepareRight.right.removeMin)
  | case5 e c s l r hlt n hkey ih =>
    rw [LlrbNode.remove, if_neg hlt]
    simp only [n] at hkey
    simp only [hkey, Bool.false_eq_true, if_false]
    exact hn.prepareRight.setRight_fixUp (ih hn.prepareRight.right)

theorem Alike.remove {n m : LlrbNode (K × V)} (hm : Alike n m) :
    Alike (n.remove cmp k) (m.remove cmp k) := by
  refine hm.map (LlrbNode.remove cmp k) fun e c c' s l r => ?_
  have hnode : Alike (node e c s l r) (node e c' s l r) := rfl
  rw [LlrbNode.remove, LlrbNode.remove]
  split_ifs with hlt
  · have h₁ := hnode.prepareLeft
    simp only [h₁.left]
    exact (h₁.setLeft _).fixUp
  · have h₁ := hnode.prepareRight
    simp only [h₁.right, h₁.hasKey]
    split_ifs
    · cases (node e c' s l r).prepareRight.right.min with
      | empty => rfl
      | node e' c'' s' l' r' => exact ((h₁.setEntry e').setRight _).fixUp
    · exact (h₁.setRight _).fixUp

/-! ### Insertion -/

/-- In a balanced tree `fixUp` leaves the node that was found alone. -/
theorem insertKey_eq {n : LlrbNode (K × V)} {c : Color} {h : ℕ} (hn : Balanced n c h)
    (hsized : n.Sized) : n.insertKey cmp k v = n.innerInsert cmp k v := by
  induction hn with
  | empty => rfl
  | @red e s h l r hl hr ihl ihr =>
    rw [insertKey, innerInsert, ihl hsized.left, ihr hsized.right]
    cases cmp k e.1 with
    | eq =>
      show fixUp _ = _
      rw [fixUp_right_black hl hr, rep, ← hsized.1]
    | _ => rfl
  | @black e c s h l r hl hr ihl ihr =>
    rw [insertKey, innerInsert, ihl hsized.left, ihr hsized.right]
    cases cmp k e.1 with
    | eq =>
      show fixUp _ = _
      rw [fixUp_right_black hl hr, rep, ← hsized.1]
    | _ => rfl

/-! ### The dictionary -/

/-- `dictionaryBySettingObject:forKey:`. -/
def settingObject (cmp : K → K → Ordering) (value : V) (key : K) (root : LlrbNode (K × V)) :
    LlrbNode (K × V) := (root.insertKey cmp key value).setColor .black

def objectForKey (cmp : K → K → Ordering) (key : K) : LlrbNode (K × V) → Option V
  | empty => none
  | node entry _ _ left right =>
    match cmp key entry.1 with
    | .eq => some entry.2
    | .lt => left.objectForKey cmp key
    | .gt => right.objectForKey cmp key

/-- `dictionaryByRemovingObjectForKey:`. -/
def removingObject (cmp : K → K → Ordering) (key : K) (root : LlrbNode (K × V)) :
    LlrbNode (K × V) :=
  if (root.objectForKey cmp key).isSome then (root.remove cmp key).setColor .black else root

def maxKey : LlrbNode (K × V) → Option K
  | empty => none
  | node entry _ _ _ right => if right.isEmpty then some entry.1 else right.maxKey

theorem maxKey_eq (n : LlrbNode (K × V)) : n.maxKey = (n.toList.map Prod.fst).getLast? := by
  induction n with
  | empty => rfl
  | node e c s l r _ ihr =>
    rw [maxKey, toList_node, List.map_append, List.map_cons]
    cases hr : r.isEmpty with
    | true => simp [isEmpty_iff.1 hr]
    | false =>
      have hne : r.toList.map Prod.fst ≠ [] := fun hnil =>
        Bool.noConfusion (hr.symm.trans (isEmpty_iff.2 (List.map_eq_nil_iff.1 hnil)))
      rw [if_neg Bool.false_ne_true, ihr, List.getLast?_append, List.getLast?_cons]
      obtain ⟨a, ha⟩ := Option.isSome_iff_exists.1 (List.getLast?_isSome.2 hne)
      rw [ha, Option.getD_some, Option.some_or]

variable [TransCmp cmp] {n : LlrbNode (K × V)}

omit [TransCmp cmp] in
/-- On trees that are in order, the dictionary and the map insert alike. -/
theorem settingObject_eq (hn : n.Wellformed cmp) : n.settingObject cmp v k = n.insert cmp k v := by
  rw [settingObject, insert, fixRootColor_eq_setColor,
    insertKey_eq hn.balanced.choose_spec hn.sized]

theorem objectForKey_eq (hinc : Increasing Prod.fst cmp n.toList) :
    n.objectForKey cmp k = (SortedList.find Prod.fst cmp k n.toList).map Prod.snd := by
  induction n with
  | empty => rfl
  | node e c s l r ihl ihr =>
    obtain ⟨hl, hr, -, hgt⟩ := increasing_append_cons.1 hinc
    rw [objectForKey, toList_node]
    cases hk : cmp k e.1 with
    | lt => rw [find_append_cons hk hgt, ← ihl hl]
    | gt => rw [find_append_cons_of_gt hinc hk, ← ihr hr]
    | eq => rw [find_append_cons_of_eq hinc hk, Option.map_some]

theorem Balanced.setColor_black {n : LlrbNode α} {c : Color} {h : ℕ} (hn : Balanced n c h) :
    ∃ h', Balanced (n.setColor .black) .black h' :=
  fixRootColor_eq_setColor n ▸ hn.fixRootColor

/-- The root may be black with two black children: then `remove` does what it would do if it were
red, up to the colour of the root. -/
theorem remove_root_spec {h : ℕ} (hn : Balanced n .black h)
    (hinc : Increasing Prod.fst cmp n.toList) :
    (∃ h', Balanced ((n.remove cmp k).setColor .black) .black h') ∧
      (n.remove cmp k).toList = SortedList.erase Prod.fst cmp k n.toList := by
  have hready : ∃ m c h, Alike n m ∧ m.toList = n.toList ∧
      Ready (fun e => cmp k e.1 ≠ .lt) m c h := by
    cases hn with
    | empty => exact ⟨_, _, _, rfl, rfl, .empty⟩
    | @black e c s h l r hl hr =>
      cases c with
      | red => exact ⟨_, _, _, rfl, rfl, .leftRed hl hr⟩
      | black => exact ⟨node e .red s l r, _, _, rfl, rfl, .red hl hr⟩
  obtain ⟨m, c, h, hm, hlist, hready⟩ := hready
  obtain ⟨hbal, herase⟩ := remove_spec hready (by rwa [hlist])
  have halike : Alike (n.remove cmp k) (m.remove cmp k) := hm.remove
  have hcolor : (n.remove cmp k).setColor .black = (m.remove cmp k).setColor .black := halike
  rw [hcolor]
  constructor
  · cases c with
    | black => exact hbal.setColor_black
    | red => exact hbal.choose_spec.setColor_black
  · rw [← toList_setColor, hcolor, toList_setColor, herase, hlist]

theorem toList_removingObject (hn : n.Wellformed cmp) :
    (n.removingObject cmp k).toList = SortedList.erase Prod.fst cmp k n.toList := by
  rw [removingObject]
  split
  · rw [toList_setColor]
    exact (remove_root_spec hn.balanced.choose_spec hn.increasing).2
  · rename_i hnone
    rw [objectForKey_eq hn.increasing, Option.isSome_map, Bool.not_eq_true,
      Option.isSome_eq_false_iff, Option.isNone_iff_eq_none] at hnone
    exact (erase_of_find_none hnone).symm

theorem Wellformed.removingObject (hn : n.Wellformed cmp) :
    (n.removingObject cmp k).Wellformed cmp where
  increasing := by
    rw [toList_removingObject hn]
    exact hn.increasing.erase k
  balanced := by
    rw [LlrbNode.removingObject]
    split
    · exact (remove_root_spec hn.balanced.choose_spec hn.increasing).1
    · exact hn.balanced
  sized := by
    rw [LlrbNode.removingObject]
    split
    · exact hn.sized.remove.setColor .black
    · exact hn.sized

end SmartWeather.Firestore.LlrbNode
