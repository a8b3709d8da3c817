import IndustrialHmi.Model.ProductTable

/-!
# Searching for products

The query of a search is put between two wildcards as it is.  With neither of the two wildcards in
it the search finds the live products that contain it; with one it also finds others, and a query
that makes the pattern too long finds none (`search_literal_iff`).
-/

namespace Products

open Characters

/-- The text contains the query, up to the case of letters of ASCII. -/
def Contains (query text : Text) : Prop :=
  (chars query).map foldCase <:+: (chars text).map foldCase

/-- The products are those of the live rows that contain the query, each once and in the order of
the ids. -/
def Literal (t : ProductTable) (query : Text) (products : List Product) : Prop :=
  ∃ rows : List ProductRow,
    rows.Pairwise (fun r r' => r.id < r'.id) ∧
    (∀ r, r ∈ rows ↔ r ∈ t.rows ∧ r.live = true ∧
      (Contains query (cString r.name) ∨ Contains query (cString r.productCode))) ∧
    products = rows.map ProductRow.extractProduct

/-- No byte of the query is a wildcard, and its pattern is not too long. -/
structure Plain (query : Text) : Prop where
  percent : percent ∉ query
  underscore : underscore ∉ query
  short : query.length + 2 ≤ kMaxLikePatternLength

/-! ## The pattern of a query -/

theorem cString_of_not_mem {text : Text} (h : 0 ∉ text) : cString text = text := by
  refine List.takeWhile_eq_self_iff.mpr fun b hb => ?_
  rw [decide_eq_true_eq]
  exact fun hzero => h (hzero ▸ hb)

theorem cString_pattern {query : Text} (h : 0 ∉ query) :
    cString (percent :: query ++ [percent]) = percent :: query ++ [percent] := by
  refine cString_of_not_mem fun hzero => ?_
  rcases List.mem_append.mp hzero with hzero | hzero
  · rcases List.mem_cons.mp hzero with hzero | hzero
    · exact absurd hzero (by decide)
    · exact h hzero
  · exact absurd (List.mem_singleton.mp hzero) (by decide)

/-- The items of a query's pattern. -/
theorem items_pattern (query : Text) :
    (chars (percent :: query ++ [percent])).map likeItem =
      .any :: ((chars query).map likeItem ++ [.any]) := by
  have hback := chars_append (b := percent) rfl rfl query []
  have hfront := chars_append (b := percent) rfl rfl [] (query ++ [percent])
  rw [List.nil_append] at hfront
  rw [List.cons_append, hfront, hback]
  show likeItem [percent] :: ((chars query ++ [percent] :: chars []).map likeItem) = _
  rw [List.map_append]
  rfl

theorem mem_of_mem_chars {text c : Text} {b : UInt8} (hc : c ∈ chars text) (hb : b ∈ c) :
    b ∈ text := by
  rw [← flatten_chars text]
  exact List.mem_flatten.mpr ⟨c, hc, hb⟩

theorem likeItem_plain {query : Text} (h : Plain query) :
    (chars query).map likeItem = (chars query).map .lit := by
  refine List.map_congr_left fun c hc => ?_
  have hpercent : c ≠ [percent] := by
    rintro rfl
    exact h.percent (mem_of_mem_chars hc (List.mem_singleton_self _))
  have hunderscore : c ≠ [underscore] := by
    rintro rfl
    exact h.underscore (mem_of_mem_chars hc (List.mem_singleton_self _))
  rw [likeItem, if_neg hpercent, if_neg hunderscore]

/-- The pattern of a plain query matches what contains it. -/
theorem like_plain {query : Text} (h : Plain query) (text : Text) :
    like (percent :: query ++ [percent]) text = true ↔ Contains query text := by
  rw [like, items_pattern, likeItem_plain h]
  exact Like.test_search

theorem selectLike_eq {query : Text} (hnul : 0 ∉ query) (t : ProductTable) :
    t.selectLike query =
      if kMaxLikePatternLength < query.length + 2 then []
      else t.rows.filter fun r =>
        (like (percent :: query ++ [percent]) (cString r.name) ||
          like (percent :: query ++ [percent]) (cString r.productCode)) && r.live := by
  rw [ProductTable.selectLike, cString_pattern hnul]
  have hlength : (percent :: query ++ [percent]).length = query.length + 2 := by
    rw [List.length_append, List.length_cons, List.length_singleton]
  rw [hlength]

theorem literal_of_plain {query : Text} (hnul : 0 ∉ query) (h : Plain query) (t : ProductTable) :
    Literal t query (t.searchProducts query) := by
  refine ⟨t.selectLike query, ?_, fun r => ?_, rfl⟩
  · have hids := List.pairwise_map.mp t.ids_ascending
    rw [selectLike_eq hnul, if_neg (Nat.not_lt.mpr h.short)]
    exact hids.sublist List.filter_sublist
  · rw [selectLike_eq hnul, if_neg (Nat.not_lt.mpr h.short), List.mem_filter, Bool.and_eq_true,
      Bool.or_eq_true, like_plain h, like_plain h]
    exact and_congr_right fun _ => and_comm

/-! ## Queries that are not plain -/

/-- A table of one product, with the same text as its name and its code. -/
def single (text : Text) : ProductTable where
  rows := [{
    id := 1
    productCode := text
    name := text
    status := ascii "Active"
    stock := 0
    qualityRate := none
    createdAt := []
    updatedAt := []
    deletedAt := none }]
  sequence := 1
  ids_ascending := List.pairwise_singleton _ _
  id_le_sequence r hr := by
    rw [List.mem_singleton.mp hr]
  codes_nodup := List.nodup_singleton _
  status_mem r hr := by
    rw [List.mem_singleton.mp hr]
    exact List.mem_cons_self

/-- The one product is in the answer if it contains the query, and only then. -/
theorem literal_single {query text : Text} {products : List Product} (hnul : 0 ∉ text)
    (h : Literal (single text) query products) : products ≠ [] ↔ Contains query text := by
  obtain ⟨rows, _, hrows, rfl⟩ := h
  rw [ne_eq, List.map_eq_nil_iff]
  constructor
  · intro hne
    obtain ⟨r, hr⟩ := List.exists_mem_of_ne_nil rows hne
    obtain ⟨hmem, _, hcontains⟩ := (hrows r).mp hr
    rw [List.mem_singleton.mp hmem] at hcontains
    rw [← cString_of_not_mem hnul]
    exact hcontains.elim id id
  · intro hcontains hempty
    rw [← cString_of_not_mem hnul] at hcontains
    have hmem := (hrows _).mpr ⟨List.mem_singleton_self _, rfl, Or.inl hcontains⟩
    rw [hempty] at hmem
    cases hmem

/-- The byte with another one for a wildcard. -/
def fill (b : UInt8) : UInt8 := if b = percent ∨ b = underscore then 0x61 else b

theorem isLead_fill (b : UInt8) : isLead (fill b) = isLead b := by
  unfold fill
  split
  next h => rcases h with rfl | rfl <;> rfl
  next => rfl

theorem isContinuation_fill (b : UInt8) : isContinuation (fill b) = isContinuation b := by
  unfold fill
  split
  next h => rcases h with rfl | rfl <;> rfl
  next => rfl

theorem fill_ne {b w : UInt8} (hw : w = percent ∨ w = underscore) : fill b ≠ w := by
  unfold fill
  split
  next => rcases hw with rfl | rfl <;> decide
  next h =>
    rintro rfl
    exact h hw

theorem not_mem_fill {query : Text} (hnul : 0 ∉ query) : 0 ∉ query.map fill := by
  intro hzero
  obtain ⟨b, hb, hfill⟩ := List.mem_map.mp hzero
  unfold fill at hfill
  split at hfill
  · exact absurd hfill (by decide)
  · exact hnul (hfill ▸ hb)

theorem map_fill_char {text c : Text} (hc : c ∈ chars text) (hpercent : c ≠ [percent])
    (hunderscore : c ≠ [underscore]) : c.map fill = c := by
  obtain ⟨b, rfl⟩ | hbytes := shape_of_mem_chars hc
  · have hb : ¬(b = percent ∨ b = underscore) := by
      rintro (rfl | rfl)
      · exact hpercent rfl
      · exact hunderscore rfl
    rw [List.map_singleton, fill, if_neg hb]
  · refine (List.map_congr_left fun b hb => ?_).trans (List.map_id c)
    refine if_neg ?_
    rintro (rfl | rfl)
    · exact absurd (hbytes _ hb) (by decide)
    · exact absurd (hbytes _ hb) (by decide)

/-- A query with its wildcards filled matches the pattern of the query. -/
theorem like_fill (query : Text) :
    like (percent :: query ++ [percent]) (query.map fill) = true := by
  have hfits : List.Forall₂ (Like.Fits foldCase) ((chars query).map likeItem)
      (chars (query.map fill)) := by
    rw [chars_map isLead_fill isContinuation_fill, List.forall₂_map_left_iff,
      List.forall₂_map_right_iff, List.forall₂_same]
    intro c hc
    unfold likeItem
    split
    next => trivial
    next hpercent =>
      split
      next => trivial
      next hunderscore =>
        show foldCase c = foldCase (c.map fill)
        rw [map_fill_char hc hpercent hunderscore]
  have hsearch : Like.test foldCase ((chars query).map likeItem ++ [.any])
      (chars (query.map fill) ++ []) = true := Like.test_append_of_fits hfits rfl
  rw [like, items_pattern]
  rw [List.append_nil] at hsearch
  exact Like.test_any.mpr ⟨_, List.suffix_refl _, hsearch⟩

theorem lower_eq_wildcard {b w : UInt8} (hw : w = percent ∨ w = underscore) :
    lower b = w ↔ b = w := by
  unfold lower
  split
  next h => rcases hw with rfl | rfl <;> simp only [percent, underscore] <;> grind
  next => rfl

/-- A query with a wildcard is not contained in what it is when that is filled. -/
theorem not_contains_fill {query : Text} {w : UInt8} (hw : w = percent ∨ w = underscore)
    (hmem : w ∈ query) : ¬Contains query (query.map fill) := by
  intro hcontains
  rw [← flatten_chars query] at hmem
  obtain ⟨c, hc, hwc⟩ := List.mem_flatten.mp hmem
  obtain ⟨d, hd, hfold⟩ := List.mem_map.mp (hcontains.subset (List.mem_map_of_mem hc))
  have hwd : w ∈ foldCase d := by
    rw [hfold]
    exact List.mem_map.mpr ⟨w, hwc, (lower_eq_wildcard hw).mpr rfl⟩
  obtain ⟨b, hb, hlower⟩ := List.mem_map.mp hwd
  obtain rfl := (lower_eq_wildcard hw).mp hlower
  obtain ⟨b', _, hfill⟩ := List.mem_map.mp (mem_of_mem_chars hd hb)
  exact fill_ne hw hfill

/-- The answer to a query that is not too long, from a table of the query with its wildcards
filled. -/
theorem searchProducts_fill {query : Text} (hnul : 0 ∉ query)
    (hshort : query.length + 2 ≤ kMaxLikePatternLength) :
    (single (query.map fill)).searchProducts query ≠ [] := by
  have hname : like (percent :: query ++ [percent]) (cString (query.map fill)) = true := by
    rw [cString_of_not_mem (not_mem_fill hnul)]
    exact like_fill query
  rw [ProductTable.searchProducts, selectLike_eq hnul, if_neg (Nat.not_lt.mpr hshort), ne_eq,
    List.map_eq_nil_iff, List.filter_eq_nil_iff]
  intro hnone
  refine hnone _ (List.mem_singleton_self _) ?_
  rw [Bool.and_eq_true, Bool.or_eq_true]
  exact ⟨Or.inl hname, rfl⟩

/-- A search is literal in every table if the query is plain, and only then. -/
theorem search_literal_iff {query : Text} (hnul : 0 ∉ query) :
    (∀ t : ProductTable, Literal t query (t.searchProducts query)) ↔ Plain query := by
  refine ⟨fun h => ?_, literal_of_plain hnul⟩
  have hshort : query.length + 2 ≤ kMaxLikePatternLength := by
    by_contra hlong
    have hfound := (literal_single hnul (h (single query))).mpr (List.infix_refl _)
    refine hfound ?_
    rw [ProductTable.searchProducts, selectLike_eq hnul, if_pos (Nat.lt_of_not_le hlong)]
    rfl
  have hwildcard (w : UInt8) (hw : w = percent ∨ w = underscore) : w ∉ query := by
    intro hmem
    have hfound := searchProducts_fill hnul hshort
    have hcontains := (literal_single (not_mem_fill hnul) (h _)).mp hfound
    exact not_contains_fill hw hmem hcontains
  exact ⟨hwildcard percent (Or.inl rfl), hwildcard underscore (Or.inr rfl), hshort⟩

theorem search_product_literal :
    Literal (single (ascii "Product A")) (ascii "duct a")
      ((single (ascii "Product A")).searchProducts (ascii "duct a")) :=
  (search_literal_iff (by decide)).mpr ⟨by decide, by decide, by decide⟩ _

/-- A search for `PROD_001` finds `PROD-001`, which does not contain it. -/
theorem search_underscore_not_literal :
    ((single (ascii "PROD-001")).searchProducts (ascii "PROD_001")).map Product.name =
        [ascii "PROD-001"] ∧
      ¬Contains (ascii "PROD_001") (ascii "PROD-001") ∧
      ¬Literal (single (ascii "PROD-001")) (ascii "PROD_001")
        ((single (ascii "PROD-001")).searchProducts (ascii "PROD_001")) := by
  have hfound : ((single (ascii "PROD-001")).searchProducts (ascii "PROD_001")).map Product.name =
      [ascii "PROD-001"] := by decide
  have hmissing : ¬Contains (ascii "PROD_001") (ascii "PROD-001") := by
    unfold Contains
    decide
  refine ⟨hfound, hmissing, fun h => hmissing ((literal_single (by decide) h).mp fun hnil => ?_)⟩
  rw [hnil] at hfound
  cases hfound

end Products
