import JitRedis.Ziplist.Reading

/-!
# Inserting into a ziplist

`__ziplistInsert` puts an entry before another one or at the end. The next entry gets a `prevlen` field of the size that its
new length needs, except that it keeps a longer one if the new entry is too short to make up for the difference.
-/

namespace JitRedis.RawZiplist

open Fallible List ZipItem Memory

/-- The form of the field of the next entry: `forcelarge` keeps the large one behind an entry of less than four bytes. -/
def nextBig (reqlen : Nat) (big : Bool) : Bool := if reqlen < 4 ∧ big = true then true else bigPrevlen reqlen

/-- Entries of which the first one gets another form of its field. -/
def refit (big : Bool) : List ZipItem → List ZipItem
  | [] => []
  | i :: rest => { i with big } :: grow (ZipItem.rawlen { i with big }) rest

/-- Entries behind a new one. -/
def follow (reqlen : Nat) (rest : List ZipItem) : List ZipItem :=
  refit (nextBig reqlen ((rest.head?.map ZipItem.big).getD false)) rest

def newItem (items : List ZipItem) (k : Nat) (s : ZipString) : ZipItem := .ofString (lastRaw 0 (items.take k)) s

def inserted (items : List ZipItem) (k : Nat) (s : ZipString) : List ZipItem :=
  items.take k ++ newItem items k s :: follow (newItem items k s).rawlen (items.drop k)

lemma writeEntry_eq (len tail : Nat) (a c : Bytes) {num n prevlen g} {s} (hnum : CountField num n)
    (hg : g.length = (ofString prevlen s).rawlen) :
    ∃ num', CountField num' (n + 1) ∧
      ziplistWriteEntry (block len tail num (a ++ (g ++ c))) (ziplistHeaderSize + a.length) prevlen s.1 =
        .ok (block len tail num' (a ++ (field (bigPrevlen prevlen) prevlen ++ ((ofString prevlen s).body ++ c)))) := by
  set header := zipStoreEntryEncoding (zipEncodingOf s.1) s.1.length with hheader
  have hbody : (ofString prevlen s).body = header ++ payload s.1 := rfl
  rw [rawlen, hbody, length_append, show (ofString prevlen s).big = bigPrevlen prevlen from rfl,
    ← prevlenSize_eq] at hg
  -- The room for the length, for the header and for the payload.
  obtain ⟨g1, g2, g3, rfl, h1, h2, h3⟩ : ∃ g1 g2 g3, g = g1 ++ (g2 ++ g3) ∧ g1.length = prevlenSize prevlen ∧
      g2.length = header.length ∧ g3.length = (payload s.1).length := by
    refine ⟨g.take (prevlenSize prevlen), (g.drop (prevlenSize prevlen)).take header.length,
      (g.drop (prevlenSize prevlen)).drop header.length, ?_, ?_, ?_, ?_⟩
    · rw [take_append_drop, take_append_drop]
    · rw [length_take]
      omega
    · rw [length_take, length_drop]
      omega
    · rw [length_drop, length_drop]
      omega
  have hfield : (field (bigPrevlen prevlen) prevlen).length = prevlenSize prevlen := by rw [length_field, prevlenSize_eq]
  have hlen : zipStorePrevEntryLength (block len tail num (a ++ ((g1 ++ (g2 ++ g3)) ++ c))) (ziplistHeaderSize + a.length) prevlen =
      .ok (block len tail num ((a ++ field (bigPrevlen prevlen) prevlen) ++ (g2 ++ (g3 ++ c)))) := by
    rw [zipStorePrevEntryLength, prevlenBytes_eq, append_assoc g1, store_block rfl (by rw [h1, hfield])]
    simp only [append_assoc]
  have hhead : store Fault.overflow (block len tail num ((a ++ field (bigPrevlen prevlen) prevlen) ++ (g2 ++ (g3 ++ c))))
      (ziplistHeaderSize + a.length + prevlenSize prevlen) header =
        .ok (block len tail num ((a ++ field (bigPrevlen prevlen) prevlen ++ header) ++ (g3 ++ c))) := by
    rw [store_block (by rw [length_append]; omega) h2]
    simp only [append_assoc]
  have hpay : store Fault.overflow (block len tail num ((a ++ field (bigPrevlen prevlen) prevlen ++ header) ++ (g3 ++ c)))
      (ziplistHeaderSize + a.length + prevlenSize prevlen + header.length) (payload s.1) =
        .ok (block len tail num (a ++ (field (bigPrevlen prevlen) prevlen ++ ((header ++ payload s.1) ++ c)))) := by
    rw [store_block (by rw [length_append, length_append]; omega) h3]
    simp only [append_assoc]
  obtain ⟨num', hnum', hincr⟩ := ziplistIncrLength_block len tail
    (a ++ (field (bigPrevlen prevlen) prevlen ++ ((header ++ payload s.1) ++ c))) hnum
    (show ((n + 1 : Nat) : Int) = n + 1 from rfl) le_rfl
  refine ⟨num', hnum', ?_⟩
  rw [ziplistWriteEntry, hlen, ok_bind]
  dsimp only
  rw [hhead, ok_bind, (payload_spec s).2.1, ok_bind, hpay, ok_bind, hincr, hbody]

lemma writeEntry_before (a : Bytes) {num n prevlen g} {s} {j} {rest}
    (hnum : CountField num n) (hg : g.length = (ofString prevlen s).rawlen) :
    ∃ num', CountField num' (n + 1) ∧
      ziplistWriteEntry (around (a ++ g) j (ofString prevlen s).rawlen j.rawlen rest num)
          (ziplistHeaderSize + a.length) prevlen s.1 =
        .ok (around a (ofString prevlen s) prevlen (ofString prevlen s).rawlen (j :: rest) num') := by
  obtain ⟨num', hnum', hwrite⟩ := writeEntry_eq (ziplistHeaderSize + (a ++ g).length + total (j :: rest) + 1)
    (ziplistHeaderSize + (a ++ g).length + lastStart (j :: rest)) a
    (chain (ofString prevlen s).rawlen (j :: rest) ++ [zipEnd]) hnum hg
  refine ⟨num', hnum', ?_⟩
  rw [around, framed, around, framed]
  rw [length_append, hg] at hwrite ⊢
  simp only [chain, append_assoc, Nat.add_assoc] at hwrite ⊢
  exact hwrite

lemma writeEntry_last (a : Bytes) {num n prevlen g} {s} (hnum : CountField num n)
    (hg : g.length = (ofString prevlen s).rawlen) :
    ∃ num', CountField num' (n + 1) ∧
      ziplistWriteEntry (block (ziplistHeaderSize + a.length + g.length + 1) (ziplistHeaderSize + a.length) num
          (a ++ (g ++ [zipEnd]))) (ziplistHeaderSize + a.length) prevlen s.1 =
        .ok (around a (ofString prevlen s) prevlen (ofString prevlen s).rawlen [] num') := by
  obtain ⟨num', hnum', hwrite⟩ := writeEntry_eq (ziplistHeaderSize + a.length + g.length + 1)
    (ziplistHeaderSize + a.length) a [zipEnd] hnum hg
  refine ⟨num', hnum', ?_⟩
  rw [hwrite, hg]
  rfl

section Room

variable {len tail num n prevlen reqlen old : Nat} {a : Bytes} {i : ZipItem} {rest : List ZipItem}

def diff (new old : Bool) : Int := (fieldSize new : Int) - fieldSize old

lemma nextdiff_eq (len tail num : Nat) (a c : Bytes) (hreq : reqlen < 2 ^ 32) (h : Fits i.big prevlen) :
    ∃ forcelarge, ziplistNextdiff (block len tail num (a ++ (field i.big prevlen ++ c))) (ziplistHeaderSize + a.length) reqlen =
        .ok (diff (nextBig reqlen i.big) i.big, forcelarge) ∧
      (if forcelarge then prevlenLarge reqlen else prevlenBytes reqlen) = field (nextBig reqlen i.big) reqlen := by
  have hm := block_append len tail num a (field i.big prevlen ++ c)
  obtain ⟨b, hb, hne, -⟩ := byteAt_field hm (length_block ..).symm h
  rw [ziplistNextdiff, hb, ok_bind, if_pos hne, zipPrevLenByteDiff_eq hm (length_block ..).symm h, ok_bind, uint,
    Nat.mod_eq_of_lt hreq, ← diff]
  cases hi : i.big with
  | true =>
    by_cases hlt : reqlen < 4
    · have hsmall : bigPrevlen reqlen = false := by rw [bigPrevlen, decide_eq_false_iff_not]; omega
      rw [hsmall, if_pos ⟨rfl, hlt⟩, nextBig, if_pos ⟨hlt, rfl⟩]
      exact ⟨true, rfl, rfl⟩
    · rw [if_neg (fun h => hlt h.2), nextBig, if_neg (fun h => hlt h.1)]
      exact ⟨false, rfl, prevlenBytes_eq⟩
  | false =>
    have hdiff : ¬(diff (bigPrevlen reqlen) false = -4 ∧ reqlen < 4) := by
      rintro ⟨h4, -⟩
      cases hbig : bigPrevlen reqlen <;> rw [hbig] at h4 <;> exact absurd h4 (by decide)
    have hbig : nextBig reqlen false = bigPrevlen reqlen := if_neg fun h => Bool.false_ne_true h.2
    rw [if_neg hdiff, hbig]
    exact ⟨false, rfl, prevlenBytes_eq⟩

lemma room_load (len tail num : Nat) (a B c : Bytes) (new big : Bool) (prevlen : Nat) :
    ∃ f, f.length = fieldSize new ∧
      load Fault.badAccess (block len tail num (a ++ (field big prevlen ++ (B ++ c))))
        ((ziplistHeaderSize + a.length : Nat) - diff new big).toNat (fieldSize new + B.length) = .ok (f ++ B) := by
  -- A longer field begins four bytes before the entry, with bytes that are overwritten, a shorter one inside the old field.
  set front := block len tail num a ++ field big prevlen with hfront
  have hlength : front.length = ziplistHeaderSize + a.length + fieldSize big := by
    rw [length_append, length_block, length_field]
  have hpos : ((ziplistHeaderSize + a.length : Nat) - diff new big).toNat + fieldSize new = front.length := by
    rw [hlength, diff, ziplistHeaderSize]
    cases new <;> cases big <;> simp only [fieldSize, if_true, if_neg Bool.false_ne_true] <;> omega
  set p := ((ziplistHeaderSize + a.length : Nat) - diff new big).toNat
  have hf : (front.drop p).length = fieldSize new := by
    rw [length_drop]
    omega
  refine ⟨front.drop p, hf, load_eq (a := front.take p) (c := c) ?_ ?_ ?_⟩
  · rw [block_append, ← append_assoc, append_assoc (front.drop p), ← append_assoc (front.take p), take_append_drop]
  · rw [length_take]
    omega
  · rw [length_append, hf]

lemma lastStart_diff (new : Bool) (i : ZipItem) (rest : List ZipItem) :
    (lastStart ({ i with big := new } :: rest) : Int) =
      lastStart (i :: rest) + if rest = [] then 0 else diff new i.big := by
  cases rest with
  | nil => rfl
  | cons j rest =>
    rw [lastStart_cons, lastStart_cons, rawlen, rawlen, diff]
    push_cast
    ring

lemma rawlen_diff (new : Bool) (i : ZipItem) : (rawlen { i with big := new } : Int) = i.rawlen + diff new i.big := by
  rw [rawlen, rawlen, diff]
  push_cast
  ring

lemma storeReqlen_eq {zl p new forcelarge} (hreq : reqlen < 2 ^ 32)
    (hforce : (if forcelarge then prevlenLarge reqlen else prevlenBytes reqlen) = field new reqlen) :
    ziplistStoreReqlen zl p reqlen forcelarge = store Fault.overflow zl p (field new reqlen) := by
  rw [← hforce, ziplistStoreReqlen, uint, Nat.mod_eq_of_lt hreq]
  cases forcelarge <;> rfl

lemma room_moved (len tail num prevlen : Nat) (a x : Bytes) (rest : List ZipItem) {new} (hx : (x.length : Int) = reqlen + diff new i.big) :
    ∃ g f, g.length = reqlen ∧ f.length = fieldSize new ∧
      move Fault.badAccess Fault.overflow
          (block len tail num (a ++ (field i.big prevlen ++ ((i.body ++ chain i.rawlen rest) ++ (x ++ [zipEnd])))))
          (ziplistHeaderSize + a.length + reqlen) (((ziplistHeaderSize + a.length : Nat) : Int) - diff new i.big).toNat
          (((ziplistHeaderSize + a.length + total (i :: rest) + 1 : Nat) : Int) - (ziplistHeaderSize + a.length : Nat) - 1 +
            diff new i.big).toNat =
        .ok (block len tail num ((a ++ g) ++ (f ++ ((i.body ++ chain i.rawlen rest) ++ [zipEnd])))) := by
  obtain ⟨f, hf, hload⟩ := room_load len tail num a (i.body ++ chain i.rawlen rest) (x ++ [zipEnd]) new i.big prevlen
  have hB : (i.body ++ chain i.rawlen rest).length = i.body.length + total rest := by
    rw [length_append, length_chain]
  generalize i.body ++ chain i.rawlen rest = B at hB hload ⊢
  have hcount : (((ziplistHeaderSize + a.length + total (i :: rest) + 1 : Nat) : Int) -
      (ziplistHeaderSize + a.length : Nat) - 1 + diff new i.big).toNat = fieldSize new + B.length := by
    rw [total_cons, rawlen, diff]
    omega
  have hroom : reqlen + (fieldSize new + B.length) = (field i.big prevlen ++ (B ++ x)).length := by
    rw [length_append, length_append, length_field]
    rw [diff] at hx
    omega
  refine ⟨(field i.big prevlen ++ (B ++ x)).take reqlen, f, ?_, hf, ?_⟩
  · rw [length_take]
    omega
  · rw [hcount, move_over (a := block len tail num a) (b := field i.big prevlen ++ (B ++ x)) (z := [zipEnd])
      ?_ hload (by rw [length_block]) hroom, ← block_append]
    · simp only [append_assoc]
    · rw [← block_append]
      simp only [append_assoc]

lemma makeRoom_eq (len num : Nat) (a x : Bytes) {new forcelarge} (hx : (x.length : Int) = reqlen + diff new i.big)
    (hlen : len = ziplistHeaderSize + a.length + reqlen + total ({ i with big := new } :: rest) + 1)
    (hold : ziplistHeaderSize + a.length + total (i :: rest) + 1 < 2 ^ 32) (small : len < 2 ^ 32)
    (hprev : Fits i.big prevlen) (hrest : Linked i.rawlen rest) (hnew : Fits new reqlen)
    (hforce : (if forcelarge then prevlenLarge reqlen else prevlenBytes reqlen) = field new reqlen) :
    ∃ g, g.length = reqlen ∧
      ziplistMakeRoom (block len (ziplistHeaderSize + a.length + lastStart (i :: rest)) num
          (a ++ (field i.big prevlen ++ ((i.body ++ chain i.rawlen rest) ++ (x ++ [zipEnd]))))) (ziplistHeaderSize + a.length)
          (ziplistHeaderSize + a.length + total (i :: rest) + 1) reqlen (diff new i.big) forcelarge =
        .ok (around (a ++ g) { i with big := new } reqlen i.rawlen rest num) := by
  have hm := block_append len (ziplistHeaderSize + a.length + lastStart (i :: rest)) num a
    (field i.big prevlen ++ ((i.body ++ chain i.rawlen rest) ++ (x ++ [zipEnd])))
  obtain ⟨b, hb, hne, -⟩ := byteAt_field hm (length_block ..).symm hprev
  obtain ⟨g, f, hg, hf, hmove⟩ := room_moved len (ziplistHeaderSize + a.length + lastStart (i :: rest)) num prevlen a x rest hx
  refine ⟨g, hg, ?_⟩
  have hpos : ziplistHeaderSize + a.length + reqlen = ziplistHeaderSize + (a ++ g).length := by
    rw [length_append, hg, Nat.add_assoc]
  have hlast := lastStart_lt i rest
  have hlast' := lastStart_lt { i with big := new } rest
  have hdiff := lastStart_diff new i rest

  have hraw : rawlen { i with big := new } < 2 ^ 32 := by
    rw [total_cons] at hlen
    omega
  have hlen' : len = ziplistHeaderSize + (a ++ g).length + total ({ i with big := new } :: rest) + 1 := by omega
  have htail : ((ziplistHeaderSize + (a ++ g).length + lastStart ({ i with big := new } :: rest) : Nat) : Int) =
      ((ziplistHeaderSize + a.length + lastStart (i :: rest) : Nat) + (reqlen : Int) + if rest = [] then 0 else diff new i.big) %
        2 ^ 32 := by omega
  rw [ziplistMakeRoom, hb, ok_bind, if_pos hne, hmove, ok_bind, storeReqlen_eq hnew.1 hforce, hpos, append_assoc i.body,
    store_field (c := { i with big := new }) hf rfl, around, ← hlen']
  exact updateTail_framed hnew hrest hraw (by omega) htail

lemma insert_eq (junk : Nat → Nat → UInt8) {zl zl₁ zl₂ zl₃ p curlen prevlen} {s} {nextdiff forcelarge} (hcur : ziplistBytes zl = .ok curlen) (hprev : ziplistPrevlen zl p = .ok prevlen)
    (hnext : ziplistNextdiff zl p (ofString prevlen s).rawlen = .ok (nextdiff, forcelarge))
    (hresize : ziplistResize (junk 0) zl ((curlen : Int) + (ofString prevlen s).rawlen + nextdiff).toNat = .ok zl₁)
    (hroom : ziplistMakeRoom zl₁ p curlen (ofString prevlen s).rawlen nextdiff forcelarge = .ok zl₂)
    (hcascade : ziplistCascadeIf (fun i => junk (i + 1)) zl₂ (p + (ofString prevlen s).rawlen) nextdiff = .ok zl₃) :
    ziplistInsert junk zl p s = ziplistWriteEntry zl₃ p prevlen s.1 := by
  have hreq : (payload s.1).length + prevlenSize prevlen + (zipStoreEntryEncoding (zipEncodingOf s.1) s.1.length).length =
      (ofString prevlen s).rawlen := by
    have hbody : (ofString prevlen s).body.length =
        (zipStoreEntryEncoding (zipEncodingOf s.1) s.1.length).length + (payload s.1).length := length_append
    rw [rawlen, prevlenSize_eq, ← show (ofString prevlen s).big = bigPrevlen prevlen from rfl]
    omega
  rw [ziplistInsert, hcur, ok_bind, hprev, ok_bind, (payload_spec s).1, ok_bind]
  dsimp only
  rw [hreq, hnext, ok_bind]
  rw [hresize, ok_bind, hroom, ok_bind, hcascade, ok_bind]

lemma cascadeIf_around (junk : Nat → Nat → UInt8) (pre : Bytes) (num : Nat) {k new} (hnew : Fits new k)
    (hrest : Linked i.rawlen rest)
    (small : ziplistHeaderSize + pre.length + total ({ i with big := new } :: rest) + 1 < 2 ^ 32) :
    ziplistCascadeIf junk (around pre { i with big := new } k i.rawlen rest num) (ziplistHeaderSize + pre.length)
        (diff new i.big) =
      if ziplistHeaderSize + pre.length +
          total ({ i with big := new } :: grow (rawlen { i with big := new }) rest) + 1 < 2 ^ 32 then
        .ok (around pre { i with big := new } k (rawlen { i with big := new })
          (grow (rawlen { i with big := new }) rest) num)
      else .error .overflow := by
  rw [ziplistCascadeIf]
  split
  · exact cascadeUpdate_around junk hnew hrest small
  rename_i hzero
  have hsame : new = i.big := by
    cases new <;> cases hi : i.big <;> rw [hi] at hzero <;> first | rfl | exact absurd (by decide) hzero
  subst hsame
  rw [grow_of_linked hrest, if_pos small]

lemma room_before (junk : Nat → Nat → UInt8) (num : Nat) (a : Bytes) (hprev : Fits i.big prevlen)
    (hrest : Linked i.rawlen rest) {new forcelarge} (hnew : Fits new reqlen)
    (hforce : (if forcelarge then prevlenLarge reqlen else prevlenBytes reqlen) = field new reqlen)
    (hdiff : 0 ≤ reqlen + diff new i.big) (hold : ziplistHeaderSize + a.length + total (i :: rest) + 1 < 2 ^ 32)
    (small : ziplistHeaderSize + a.length + reqlen +
      total ({ i with big := new } :: grow (rawlen { i with big := new }) rest) + 1 < 2 ^ 32) :
    ∃ g zl₁ zl₂, g.length = reqlen ∧
      ziplistResize (junk 0) (around a i prevlen i.rawlen rest num)
        (((ziplistHeaderSize + a.length + total (i :: rest) + 1 : Nat) : Int) + reqlen + diff new i.big).toNat = .ok zl₁ ∧
      ziplistMakeRoom zl₁ (ziplistHeaderSize + a.length) (ziplistHeaderSize + a.length + total (i :: rest) + 1) reqlen
        (diff new i.big) forcelarge = .ok zl₂ ∧
      ziplistCascadeIf (fun n => junk (n + 1)) zl₂ (ziplistHeaderSize + a.length + reqlen) (diff new i.big) =
        .ok (around (a ++ g) { i with big := new } reqlen (rawlen { i with big := new })
          (grow (rawlen { i with big := new }) rest) num) := by
  have hmono := total_le_grow (rawlen { i with big := new }) rest
  have hrawdiff := rawlen_diff new i
  have hblen := length_entries a i prevlen i.rawlen rest
  have haround := around_eq a i prevlen i.rawlen rest num
  set b := a ++ (field i.big prevlen ++ (i.body ++ chain i.rawlen rest)) with hb
  have htotal : (total ({ i with big := new } :: rest) : Int) = total (i :: rest) + diff new i.big := by
    rw [total_cons, total_cons]
    omega
  have hle : total ({ i with big := new } :: rest) ≤
      total ({ i with big := new } :: grow (rawlen { i with big := new }) rest) := by
    rw [total_cons, total_cons]
    omega
  obtain ⟨m, hm⟩ : ∃ m : Nat, (m : Int) = reqlen + diff new i.big := ⟨(reqlen + diff new i.big).toNat, by omega⟩
  obtain ⟨x, hx, hresize⟩ := ziplistResize_block (junk 0) (ziplistHeaderSize + a.length + total (i :: rest) + 1)
    (ziplistHeaderSize + a.length + lastStart (i :: rest)) num b [zipEnd] (n := ziplistHeaderSize + b.length + m)
    (by omega) (by omega)

  have hdata : b ++ (x ++ [zipEnd]) =
      a ++ (field i.big prevlen ++ ((i.body ++ chain i.rawlen rest) ++ (x ++ [zipEnd]))) := by
    rw [hb]
    simp only [append_assoc]
  obtain ⟨g, hg, hroom⟩ := makeRoom_eq (ziplistHeaderSize + b.length + m + 1) num a x (by omega) (by omega) hold
    (by omega) hprev hrest hnew hforce
  refine ⟨g, _, _, hg, ?_, hroom, ?_⟩
  · rw [← hdata, ← hresize]
    congr 1
    omega
  · have hpos : ziplistHeaderSize + a.length + reqlen = ziplistHeaderSize + (a ++ g).length := by
      rw [length_append, hg, Nat.add_assoc]
    rw [hpos] at small ⊢
    rw [cascadeIf_around (fun n => junk (n + 1)) (a ++ g) num hnew hrest (by omega), if_pos small]

end Room

section Lays

variable {zl : Bytes} {items l r : List ZipItem} {i : ZipItem}

lemma Lays.prevlen_end (h : Lays zl items) :
    ziplistPrevlen zl (ziplistHeaderSize + total items) = .ok (lastRaw 0 items) := by
  rw [ziplistPrevlen, h.byteAt_end, ok_bind, h.tailOffset, ok_bind]
  rcases eq_nil_or_concat items with rfl | ⟨l, i, rfl⟩
  · have hend : byteAt zl (ziplistHeaderSize + lastStart []) = .ok zipEnd := h.byteAt_end
    rw [hend]
    rfl
  rw [concat_eq_append] at h ⊢
  obtain ⟨b, hb, hne⟩ := h.entryByte
  rw [lastStart_append, show lastStart [i] = 0 from rfl, Nat.add_zero, hb, ok_bind, if_pos hne, h.rawEntryLength,
    lastRaw_append]
  rfl

lemma Lays.insert_before (h : Lays zl (l ++ i :: r)) (junk : Nat → Nat → UInt8) (s : ZipString)
    (small : ziplistHeaderSize + total (l ++ ofString (lastRaw 0 l) s ::
      follow (ofString (lastRaw 0 l) s).rawlen (i :: r)) + 1 < 2 ^ 32) :
    ∃ zl', ziplistInsert junk zl (ziplistHeaderSize + total l) s = .ok zl' ∧
      Lays zl' (l ++ ofString (lastRaw 0 l) s :: follow (ofString (lastRaw 0 l) s).rawlen (i :: r)) := by
  obtain ⟨num, hnum, hzl⟩ := h.around
  obtain ⟨hlink, hfits, hrest⟩ := linked_append.mp h.linked
  have hold := h.total_lt
  have hcur := h.bytes_eq
  set item := ofString (lastRaw 0 l) s with hitem
  set new := nextBig item.rawlen i.big with hnew
  have hfollow : follow item.rawlen (i :: r) =
      { i with big := new } :: grow (rawlen { i with big := new }) r := rfl
  have hle := lastRaw_le 0 l
  rw [hfollow] at small ⊢
  rw [total_append, total_cons] at small
  rw [total_append, ← Nat.add_assoc] at hold hcur
  have hreq : item.rawlen < 2 ^ 32 := by omega
  have hfitsnew : Fits new item.rawlen := by
    rw [hnew, nextBig]
    split
    · exact ⟨hreq, nofun⟩
    · exact fits_bigPrevlen hreq
  have hdiff : 0 ≤ item.rawlen + diff new i.big := by
    rw [hnew, nextBig]
    split
    · rename_i hkeep
      rw [hkeep.2, show diff true true = 0 from rfl]
      omega
    rename_i hswap
    cases hi : i.big with
    | false =>
      rw [diff, fieldSize, show fieldSize false = 1 from rfl]
      split <;> omega
    | true =>
      have hlong : ¬item.rawlen < 4 := fun hlt => hswap ⟨hlt, hi⟩
      rw [diff, fieldSize, show fieldSize true = 5 from rfl]
      split <;> omega
  have hchain := length_chain 0 l
  obtain ⟨forcelarge, hnext, hforce⟩ := nextdiff_eq (ziplistHeaderSize + (chain 0 l).length + total (i :: r) + 1)
    (ziplistHeaderSize + (chain 0 l).length + lastStart (i :: r)) num (chain 0 l)
    (i.body ++ (chain i.rawlen r ++ [zipEnd])) hreq hfits
  obtain ⟨g, zl₁, zl₂, hg, hresize, hroom, hcascade⟩ := room_before junk num (chain 0 l) hfits hrest hfitsnew hforce hdiff
    (by rw [hchain]; exact hold) (by rw [hchain]; omega)
  have hprev : ziplistPrevlen zl (ziplistHeaderSize + (chain 0 l).length) = .ok (lastRaw 0 l) := by
    obtain ⟨b, hb, hne⟩ := h.entryByte
    rw [length_chain, ziplistPrevlen, hb, ok_bind, if_pos hne, h.decodePrevlen, ok_bind]
  obtain ⟨num', hnum', hwrite⟩ := writeEntry_before (chain 0 l) hnum hg
  rw [← hzl] at hresize
  rw [← framed, ← RawZiplist.around, ← hzl] at hnext
  have hcount : CountField num' (l ++ item :: { i with big := new } ::
      grow (rawlen { i with big := new }) r).length := by
    rw [length_append] at hnum'
    rwa [length_append, length_cons, length_cons, length_grow]
  refine ⟨_, ?_, lays_around hcount ?_ ?_⟩
  · rw [← hchain, insert_eq junk (hchain ▸ hcur) hprev hnext hresize hroom hcascade, hwrite]
  · rw [total_cons] at small
    exact linked_append.mpr ⟨hlink, fits_bigPrevlen (by omega), hfitsnew, linked_grow hrest (by omega) (by omega)⟩
  · rw [total_append, total_cons]
    omega

lemma Lays.insert_last (h : Lays zl l) (junk : Nat → Nat → UInt8) (s : ZipString)
    (small : ziplistHeaderSize + total (l ++ [ofString (lastRaw 0 l) s]) + 1 < 2 ^ 32) :
    ∃ zl', ziplistInsert junk zl (ziplistHeaderSize + total l) s = .ok zl' ∧
      Lays zl' (l ++ [ofString (lastRaw 0 l) s]) := by
  obtain ⟨num, hnum, hzl⟩ := h.bytes
  rw [h.length] at hzl
  have hle := lastRaw_le 0 l
  set item := ofString (lastRaw 0 l) s with hitem
  have hsize : total (l ++ [item]) = total l + item.rawlen := by rw [total_append, total_cons, total_nil, Nat.add_zero]
  rw [hsize] at small
  have hpos := item.rawlen_pos
  have hchain := length_chain 0 l
  -- The block is extended behind its end marker, which is then where the entry goes.
  obtain ⟨x, hx, hresize⟩ := ziplistResize_block (junk 0) (ziplistHeaderSize + total l + 1) (ziplistHeaderSize + lastStart l) num
    (chain 0 l ++ [zipEnd]) [] (n := ziplistHeaderSize + total l + item.rawlen)
    (by rw [length_append, length_singleton]; omega) (by omega)
  have hlen : (((ziplistHeaderSize + total l + 1 : Nat) : Int) + item.rawlen + 0).toNat =
      ziplistHeaderSize + total l + item.rawlen + 1 := by omega
  rw [append_nil, ← hzl] at hresize
  rw [length_append, length_singleton] at hx
  have hnext : ziplistNextdiff zl (ziplistHeaderSize + total l) item.rawlen = .ok (0, false) := by
    rw [ziplistNextdiff, h.byteAt_end, ok_bind, if_neg (not_not_intro rfl)]
  have hroom : ziplistMakeRoom (block (ziplistHeaderSize + total l + item.rawlen + 1) (ziplistHeaderSize + lastStart l) num
      (chain 0 l ++ [zipEnd] ++ (x ++ [zipEnd]))) (ziplistHeaderSize + total l) (ziplistHeaderSize + total l + 1) item.rawlen 0
        false = .ok (block (ziplistHeaderSize + total l + item.rawlen + 1) (ziplistHeaderSize + total l) num
          (chain 0 l ++ ((zipEnd :: x) ++ [zipEnd]))) := by
    have hbyte : byteAt (block (ziplistHeaderSize + total l + item.rawlen + 1) (ziplistHeaderSize + lastStart l) num
        (chain 0 l ++ [zipEnd] ++ (x ++ [zipEnd]))) (ziplistHeaderSize + total l) = .ok zipEnd := by
      apply byteAt_eq (c := x ++ [zipEnd]) (a := block (ziplistHeaderSize + total l + item.rawlen + 1)
        (ziplistHeaderSize + lastStart l) num (chain 0 l))
      · rw [append_assoc]
        rfl
      · rw [length_block, hchain]
    rw [ziplistMakeRoom, hbyte, uint,
      Nat.mod_eq_of_lt (by omega), append_assoc]
    rfl
  have hg : (zipEnd :: x).length = item.rawlen := by
    rw [length_cons]
    omega
  obtain ⟨num', hnum', hwrite⟩ := writeEntry_last (chain 0 l) hnum hg
  rw [hg, hchain] at hwrite
  have hcount : CountField num' (l ++ [item]).length := by rwa [length_append]
  refine ⟨_, ?_, lays_around hcount ?_ ?_⟩
  · rw [insert_eq junk h.bytes_eq h.prevlen_end hnext (by rw [hlen]; exact hresize) hroom (if_neg (not_not_intro rfl)),
      hwrite]
  · exact linked_append.mpr ⟨h.linked, fits_bigPrevlen (by omega), trivial⟩
  · rwa [hsize]

end Lays

lemma values_refit (big : Bool) (r : List ZipItem) : (refit big r).map value = r.map value := by
  cases r with
  | nil => rfl
  | cons i r => rw [refit, map_cons, values_grow, map_cons]

lemma texts_inserted (items : List ZipItem) (k : Nat) (s : ZipString) :
    texts (inserted items k s) = (texts items).take k ++ s.1 :: (texts items).drop k := by
  simp only [texts_eq, inserted, follow, map_append, map_cons, values_refit]
  rw [show (newItem items k s).value = zipEncode s.1 from rfl, text_zipEncode, map_take, map_take, map_drop,
    map_drop]

lemma Lays.insert {zl} {items} {k} (h : Lays zl items) (junk : Nat → Nat → UInt8)
    (s : ZipString) (small : ziplistHeaderSize + total (inserted items k s) + 1 < 2 ^ 32) :
    ∃ zl', ziplistInsert junk zl (offset items k) s = .ok zl' ∧ Lays zl' (inserted items k s) := by
  cases hr : items.drop k with
  | nil =>
    have hl : items.take k = items := by
      have hsplit := take_append_drop k items
      rwa [hr, append_nil] at hsplit
    rw [inserted, newItem, hr, hl] at small ⊢
    rw [offset, hl]
    exact h.insert_last junk s small
  | cons i r =>
    rw [← take_append_drop k items, hr] at h
    rw [inserted, hr] at small ⊢
    exact h.insert_before junk s small

/-- `ziplistInsert` and `ziplistPush` put a string before any entry or at the end: whatever fields have to change their size,
the result is well formed if it has less than `2 ^ 32` bytes, and every text is read back. -/
theorem ziplistInsert_inserts {zl : Bytes} {items : List ZipItem} {k : Nat} (h : Lays zl items) (hk : k ≤ items.length)
    (junk : Nat → Nat → UInt8) (s : ZipString) (small : ziplistHeaderSize + total (inserted items k s) + 1 < 2 ^ 32) :
    ∃ zl', ziplistInsert junk zl (offset items k) s = .ok zl' ∧ Lays zl' (inserted items k s) ∧
      texts (inserted items k s) = (texts items).take k ++ s.1 :: (texts items).drop k ∧
      (∀ j ≤ (inserted items k s).length, textAt zl' (offset (inserted items k s) j) = .ok (texts (inserted items k s))[j]?) ∧
      textAt zl' (offset (inserted items k s) k) = .ok (some s.1) ∧
      (k = 0 → ziplistPush junk zl s true = .ok zl') ∧
      (k = items.length → ziplistPush junk zl s false = .ok zl') := by
  obtain ⟨zl', hinsert, lays⟩ := h.insert junk s small
  have htexts := texts_inserted items k s
  have hlen : (inserted items k s).length = items.length + 1 := by
    rw [← length_texts, htexts, length_append, length_cons, length_take, length_drop, length_texts]
    omega
  refine ⟨zl', hinsert, lays, htexts, fun j => lays.textAt_offset, ?_, ?_, ?_⟩
  · rw [lays.textAt_offset (by omega), htexts, getElem?_append_right (length_take_le _ _), length_take_of_le
      (by rwa [length_texts]), Nat.sub_self]
    rfl
  · rintro rfl
    exact hinsert
  · rintro rfl
    rw [ziplistPush, h.bytes_eq]
    rwa [offset, take_length] at hinsert

/-- A string behind another one. -/
theorem ziplistInsert_inserts_behind :
    Lays (block 14 10 1 (chain 0 [.ofString 0 ⟨[97], by decide⟩] ++ [zipEnd])) [.ofString 0 ⟨[97], by decide⟩] ∧
    ∃ zl', ziplistInsert (fun _ _ => 0) (block 14 10 1 (chain 0 [.ofString 0 ⟨[97], by decide⟩] ++ [zipEnd])) 13
      ⟨[98, 99], by decide⟩ = .ok zl' ∧ textAt zl' 13 = .ok (some [98, 99]) := by
  have lays : Lays (block 14 10 1 (chain 0 [.ofString 0 ⟨[97], by decide⟩] ++ [zipEnd])) [.ofString 0 ⟨[97], by decide⟩] :=
    ⟨⟨1, .inl (by decide), by decide⟩, ⟨⟨by decide, fun _ => by decide⟩, trivial⟩, by decide⟩
  obtain ⟨zl', hinsert, -, -, -, hread, -⟩ := ziplistInsert_inserts lays (k := 1) (by decide) (fun _ _ => 0)
    ⟨[98, 99], by decide⟩ (by decide)
  exact ⟨lays, zl', hinsert, hread⟩

end JitRedis.RawZiplist
