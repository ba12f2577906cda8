/-
Bitemporal/Proofs/Fresh.lean

Lists that grow by what is new to them.

Properties are put into a list unless one of their name is there, and qualified
properties unless one of their name and arity is: in either case the element is
skipped if its key is taken.  Putting many elements in turn leaves the list as
it was and behind it those whose keys were new (`foldl_putNew`), of each new
key the first (`mem_news_iff`), in the order in which they are met
(`pairwise_news`).  Where additions are counted, the count is the number of
elements that now stand behind the list (`foldl_addNewCounted`).
-/
import Bitemporal.Proofs.Table

namespace Bitemporal

/-- The name and the arity of a qualified property. -/
def QualifiedProperty.key (q : QualifiedProperty) : String × Nat :=
  (q.name, q.arity)

variable {α κ : Type} [DecidableEq κ] {key : α → κ}

/-- Puts an element at the end of a list, unless its key is taken. -/
def putNew (key : α → κ) (l : List α) (x : α) : List α :=
  if key x ∈ l.map key then l else l ++ [x]

/-- Of each key that is not among the given ones, the first element. -/
def news (key : α → κ) : List κ → List α → List α
  | _, [] => []
  | seen, x :: xs => if key x ∈ seen then news key seen xs else x :: news key (key x :: seen) xs

/-! ### Growing lists -/

/-- **Counting changes nothing, and the count is the number of elements that the list grows by.** -/
theorem foldl_addNewCounted (alike : α → α → Bool) (xs l : List α) (n : Nat) :
    ∃ new, xs.foldl (addNew alike) l = l ++ new ∧
      xs.foldl (addNewCounted alike) (l, n) = (l ++ new, n + new.length) := by
  induction xs generalizing l n with
  | nil => exact ⟨[], by simp, by simp⟩
  | cons x xs ih =>
    rw [List.foldl_cons, List.foldl_cons, addNew, addNewCounted]
    split
    · exact ih l n
    · obtain ⟨new, hadded, hcounted⟩ := ih (l ++ [x]) (n + 1)
      refine ⟨x :: new, ?_, ?_⟩
      · rw [hadded, List.append_assoc, List.singleton_append]
      · rw [hcounted, List.append_assoc, List.singleton_append, List.length_cons, Nat.add_assoc,
          Nat.add_comm 1]

/-- Where elements are alike if their keys are equal, an element is skipped if its key is taken. -/
theorem addNew_eq_putNew {alike : α → α → Bool} (halike : ∀ x y, alike x y = true ↔ key x = key y) :
    addNew alike = putNew key := by
  funext l x
  have hany : (l.any (alike · x)) = true ↔ key x ∈ l.map key := by
    rw [List.any_eq_true, List.mem_map]
    simp only [halike]
  simp only [addNew, putNew, hany]

theorem Property.addNamed_eq : Property.addNamed = putNew Property.name :=
  addNew_eq_putNew fun _ _ => beq_iff_eq

theorem QualifiedProperty.addNew_sameKey : addNew sameKey = putNew QualifiedProperty.key :=
  addNew_eq_putNew fun q r => by
    rw [sameKey, Bool.and_eq_true, beq_iff_eq, beq_iff_eq, key, key, Prod.mk.injEq]

/-! ### What is new -/

/-- Only which keys are given matters. -/
theorem news_congr {seen seen' : List κ} (h : ∀ k, k ∈ seen ↔ k ∈ seen') (xs : List α) :
    news key seen xs = news key seen' xs := by
  induction xs generalizing seen seen' with
  | nil => rfl
  | cons x xs ih =>
    have hx : ∀ k, k ∈ key x :: seen ↔ k ∈ key x :: seen' := by
      intro k
      rw [List.mem_cons, List.mem_cons, h]
    rw [news, news, ih h, ih hx]
    simp only [h]

/-- **Putting many elements in turn.** -/
theorem foldl_putNew (xs l : List α) :
    xs.foldl (putNew key) l = l ++ news key (l.map key) xs := by
  induction xs generalizing l with
  | nil => rw [List.foldl_nil, news, List.append_nil]
  | cons x xs ih =>
    rw [List.foldl_cons, ih, putNew, news]
    split
    · rfl
    · have hkeys : ∀ k, k ∈ (l ++ [x]).map key ↔ k ∈ key x :: l.map key := by
        intro k
        rw [List.map_append, List.mem_append, List.mem_cons, or_comm]
        simp
      rw [news_congr hkeys, List.append_assoc]
      rfl

theorem mem_of_mem_news {seen : List κ} {xs : List α} {x : α} (h : x ∈ news key seen xs) :
    x ∈ xs ∧ key x ∉ seen := by
  induction xs generalizing seen with
  | nil => cases h
  | cons y xs ih =>
    rw [news] at h
    split at h
    · obtain ⟨hx, hseen⟩ := ih h
      exact ⟨List.mem_cons_of_mem _ hx, hseen⟩
    · rename_i hnew
      rcases List.mem_cons.1 h with rfl | h
      · exact ⟨List.mem_cons_self, hnew⟩
      · obtain ⟨hx, hseen⟩ := ih h
        exact ⟨List.mem_cons_of_mem _ hx, fun hmem => hseen (List.mem_cons_of_mem _ hmem)⟩

/-- What is new stands in the order of the elements. -/
theorem news_sublist (seen : List κ) (xs : List α) : (news key seen xs).Sublist xs := by
  induction xs generalizing seen with
  | nil => exact List.Sublist.slnil
  | cons x xs ih =>
    rw [news]
    split
    · exact (ih seen).cons x
    · exact (ih (key x :: seen)).cons_cons x

/-- An element is new at its first place if its key is neither given nor borne by one before it. -/
theorem mem_news_iff {seen : List κ} {before after : List α} {x : α} (hx : x ∉ before) :
    x ∈ news key seen (before ++ x :: after) ↔ key x ∉ seen ∧ key x ∉ before.map key := by
  induction before generalizing seen with
  | nil =>
    rw [List.nil_append, news]
    constructor
    · intro hmem
      split at hmem
      · exact ⟨(mem_of_mem_news hmem).2, List.not_mem_nil⟩
      · rename_i hnew
        exact ⟨hnew, List.not_mem_nil⟩
    · rintro ⟨hnew, -⟩
      rw [if_neg hnew]
      exact List.mem_cons_self
  | cons y before ih =>
    obtain ⟨hne, hbefore⟩ := List.ne_and_not_mem_of_not_mem_cons hx
    rw [List.cons_append, news, List.map_cons]
    split
    · -- the key of `x` is not that of `y`, which is given
      rename_i hy
      rw [ih hbefore, List.mem_cons]
      constructor
      · rintro ⟨hseen, hkeys⟩
        exact ⟨hseen, fun h => h.elim (fun he => hseen (he ▸ hy)) hkeys⟩
      · rintro ⟨hseen, hkeys⟩
        exact ⟨hseen, fun h => hkeys (.inr h)⟩
    · rw [List.mem_cons, ih hbefore, List.mem_cons, List.mem_cons]
      constructor
      · rintro (rfl | ⟨hseen, hkeys⟩)
        · exact (hne rfl).elim
        · exact ⟨fun h => hseen (.inr h), fun h => h.elim (fun he => hseen (.inl he)) hkeys⟩
      · rintro ⟨hseen, hkeys⟩
        exact .inr ⟨fun h => h.elim (fun he => hkeys (.inl he)) hseen, fun h => hkeys (.inr h)⟩

/-- Of each new key there is an element. -/
theorem exists_mem_news {seen : List κ} {xs : List α} {k : κ} (hk : k ∈ xs.map key) (hseen : k ∉ seen) :
    ∃ x ∈ news key seen xs, key x = k := by
  induction xs generalizing seen with
  | nil => cases hk
  | cons y xs ih =>
    rw [news]
    split
    · rename_i hy
      refine ih ((List.mem_cons.1 hk).resolve_left ?_) hseen
      rintro rfl
      exact hseen hy
    · by_cases hyk : key y = k
      · exact ⟨y, List.mem_cons_self, hyk⟩
      · obtain ⟨x, hx, hkey⟩ := ih ((List.mem_cons.1 hk).resolve_left (Ne.symm hyk)) (by
          rw [List.mem_cons, not_or]
          exact ⟨Ne.symm hyk, hseen⟩)
        exact ⟨x, List.mem_cons_of_mem y hx, hkey⟩

/-- What is new in two lists in turn is new in the first, or in the second after it. -/
theorem mem_news_append {seen : List κ} {xs ys : List α} {x : α} :
    x ∈ news key seen (xs ++ ys) ↔
      x ∈ news key seen xs ∨ x ∈ news key (xs.map key ++ seen) ys := by
  induction xs generalizing seen with
  | nil => simp [news]
  | cons z xs ih =>
    have hkeys : ∀ k, k ∈ xs.map key ++ key z :: seen ↔ k ∈ (z :: xs).map key ++ seen := by
      intro k
      rw [List.map_cons, List.cons_append, List.mem_append, List.mem_cons, List.mem_cons,
        List.mem_append]
      exact or_left_comm
    rw [List.cons_append, news, news, ← news_congr hkeys]
    split
    · -- a key that is given already adds nothing
      rename_i hz
      have hseen : ∀ k, k ∈ xs.map key ++ key z :: seen ↔ k ∈ xs.map key ++ seen := by
        intro k
        rw [List.mem_append, List.mem_append, List.mem_cons]
        refine or_congr_right ⟨?_, .inr⟩
        rintro (rfl | hk)
        · exact hz
        · exact hk
      rw [ih, news_congr hseen]
    · rw [List.mem_cons, ih, List.mem_cons, or_assoc]

/-- What is new among the elements of several lists is in the first of them that bears its key. -/
theorem exists_first_of_mem_news {β : Type} {f : β → List α} {l : List β} {seen : List κ} {x : α}
    (h : x ∈ news key seen (l.flatMap f)) :
    ∃ before b after, l = before ++ b :: after ∧ x ∈ f b ∧
      ∀ b' ∈ before, key x ∉ (f b').map key := by
  induction l generalizing seen with
  | nil => cases h
  | cons b l ih =>
    rw [List.flatMap_cons, mem_news_append] at h
    rcases h with h | h
    · exact ⟨[], b, l, rfl, (mem_of_mem_news h).1, nofun⟩
    · obtain ⟨before, b', after, rfl, hx, hbefore⟩ := ih h
      refine ⟨b :: before, b', after, rfl, hx, ?_⟩
      intro b'' hb''
      rcases List.mem_cons.1 hb'' with rfl | hb''
      · exact fun hmem => (mem_of_mem_news h).2 (List.mem_append_left _ hmem)
      · exact hbefore b'' hb''

/-- Each new key is there once. -/
theorem nodup_news (seen : List κ) (xs : List α) : ((news key seen xs).map key).Nodup := by
  induction xs generalizing seen with
  | nil => exact List.nodup_nil
  | cons x xs ih =>
    rw [news]
    split
    · exact ih seen
    · rw [List.map_cons, List.nodup_cons]
      refine ⟨fun hmem => ?_, ih _⟩
      obtain ⟨y, hy, hkey⟩ := List.mem_map.1 hmem
      exact (mem_of_mem_news hy).2 (hkey ▸ List.mem_cons_self)

/-- **What is new is in the order of first occurrence**: an element is met before any that bears the
key of a later one. -/
theorem pairwise_news (seen : List κ) (xs : List α) :
    (news key seen xs).Pairwise fun x y => ∃ l, l <+: xs ∧ x ∈ l ∧ key y ∉ l.map key := by
  induction xs generalizing seen with
  | nil => exact List.Pairwise.nil
  | cons z xs ih =>
    -- what is met in `xs` is met behind `z`, whose key no later element bears
    have hmet : ∀ x y, key y ≠ key z → (∃ l, l <+: xs ∧ x ∈ l ∧ key y ∉ l.map key) →
        ∃ l, l <+: z :: xs ∧ x ∈ l ∧ key y ∉ l.map key := by
      rintro x y hne ⟨l, hl, hx, hy⟩
      refine ⟨z :: l, List.cons_prefix_cons.2 ⟨rfl, hl⟩, List.mem_cons_of_mem z hx, ?_⟩
      rw [List.map_cons, List.mem_cons, not_or]
      exact ⟨hne, hy⟩
    rw [news]
    split
    · rename_i hz
      refine (ih seen).imp_of_mem fun {x y} _ hy => hmet x y ?_
      exact fun hkey => (mem_of_mem_news hy).2 (hkey ▸ hz)
    · have hlater : ∀ y ∈ news key (key z :: seen) xs, key y ≠ key z := fun y hy hkey =>
        (mem_of_mem_news hy).2 (hkey ▸ List.mem_cons_self)
      rw [List.pairwise_cons]
      constructor
      · intro y hy
        refine ⟨[z], List.cons_prefix_cons.2 ⟨rfl, List.nil_prefix⟩, List.mem_cons_self, ?_⟩
        rw [List.map_singleton, List.mem_singleton]
        exact hlater y hy
      · exact (ih (key z :: seen)).imp_of_mem fun {x y} _ hy => hmet x y (hlater y hy)

/-- Elements that follow a list, each with a key that nothing before it bears. -/
def EachNew (key : α → κ) (l added : List α) : Prop :=
  ∀ before x after, added = before ++ x :: after → key x ∉ (l ++ before).map key

theorem eachNew_news (l xs : List α) : EachNew key l (news key (l.map key) xs) := by
  intro before x after hsplit
  rw [List.map_append, List.mem_append, not_or]
  constructor
  · exact (mem_of_mem_news (hsplit ▸ List.mem_append_cons_self)).2
  · have hnodup : ((news key (l.map key) xs).map key).Nodup := nodup_news _ _
    rw [hsplit, List.map_append, List.map_cons, List.nodup_append] at hnodup
    exact fun hmem => hnodup.2.2 _ hmem _ List.mem_cons_self rfl

/-- Elements with different keys are all new, if none of the keys is given. -/
theorem news_eq_self {seen : List κ} {xs : List α} (h : (xs.map key).Nodup)
    (hseen : ∀ x ∈ xs, key x ∉ seen) : news key seen xs = xs := by
  induction xs generalizing seen with
  | nil => rfl
  | cons x xs ih =>
    obtain ⟨hx, hxs⟩ := List.nodup_cons.1 (List.map_cons ▸ h)
    rw [news, if_neg (hseen x List.mem_cons_self), ih hxs]
    intro y hy hmem
    rcases List.mem_cons.1 hmem with hkey | hmem
    · exact hx (hkey ▸ List.mem_map_of_mem hy)
    · exact hseen y (List.mem_cons_of_mem _ hy) hmem

/-- Elements whose keys are all given are not new. -/
theorem news_eq_nil {seen : List κ} {xs : List α} (h : ∀ x ∈ xs, key x ∈ seen) :
    news key seen xs = [] := by
  rw [List.eq_nil_iff_forall_not_mem]
  intro x hx
  obtain ⟨hmem, hseen⟩ := mem_of_mem_news hx
  exact hseen (h x hmem)

end Bitemporal
