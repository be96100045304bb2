import Mathlib.Data.List.Nodup
import Waygate.Core.Mcp.ToolListPagination
import Waygate.Theory.Codec.JsonText
import Waygate.Theory.Machine.Run

/-!
# A Traversal Pages One View

Some pages of a traversal are cut from a list that was held, others from a list that was
built again. A list is held under its own binding, and a list that was built is compared
with the cursor by its binding, so either way it is the list of the first page.

## Main definitions

* `CursorAt`, `Continued`

## Theorems

* `continued_flatten`, `traversal_pages_one_view`
* `catalogBinding_inj`: A binding is of one list.
* `toolPage_ok`, `resumeCaptured_ok`: What a page is.
-/

namespace Waygate.Mcp

open Codec Machine List

section Binding

/-- The characters of the items, each closed by a null. -/
def catalogText (items : List Tool) : List Char :=
  items.flatMap (fun item => item.1.text ++ ['\x00'])

theorem asBytes_catalogText (items : List Tool) :
    asBytes (String.ofList (catalogText items))
      = items.flatMap (fun item => asBytes item.1.toText ++ [0]) := by
  induction items with
  | nil => rfl
  | cons item rest ih =>
    have hnull : asBytes (String.ofList ['\x00']) = [0] := by decide
    simp only [catalogText, flatMap_cons, String.ofList_append, asBytes_append] at ih ⊢
    rw [ih, hnull]
    rfl

theorem delimits_item :
    Delimits (fun _ => True) Eq (fun item : Tool => item.1.text ++ ['\x00']) := by
  intro a b _ _ r s h
  simp only [append_assoc] at h
  rcases Json.text_peel a.1 b.1 a.2 b.2 (Json.ends_cons (by decide)) (Json.ends_cons (by decide)) h
    with ⟨hab, hrest⟩
  exact ⟨Subtype.ext hab, (List.cons.inj hrest).2⟩

theorem catalogText_inj {a b : List Tool} (h : catalogText a = catalogText b) : a = b := by
  -- A null begins no item, so one more ends the list.
  have hnull : ∀ (item : Tool) (r : List Char), True →
      ((item.1.text ++ ['\x00']) ++ r).head? ≠ some '\x00' := by
    intro item r _ hhead
    have hkind := Json.text_head item.1 item.2 (['\x00'] ++ r)
    rw [← append_assoc, hhead] at hkind
    exact Json.kind_ne_none item.1 (Option.some.inj hkind).symm
  exact (delimits_closed delimits_item hnull a b (fun _ _ => trivial) (fun _ _ => trivial) [] []
    (by rw [append_nil, append_nil]; exact congrArg (· ++ ['\x00']) h)).1

theorem catalogBinding_inj {cx : Crypto} (hhash : Function.Injective cx.blake3) {a b : List Tool}
    {domain : List UInt8} (h : catalogBinding cx a domain = catalogBinding cx b domain) :
    a = b := by
  have hbytes := hhash h
  rw [append_assoc, append_assoc] at hbytes
  have hbody := append_inj_right (append_cancel_left hbytes) (by
    simp only [hashField, u64ToBeBytes, u64ToLeBytes, length_append, length_reverse,
      leBytes_length])
  rw [← asBytes_catalogText, ← asBytes_catalogText] at hbody
  exact catalogText_inj (String.ofList_injective (asBytes_inj _ _ hbody))

end Binding

section Store

variable {held : CapturedView} {cx : Crypto} {pageSize : Nat} {entries : CapturedViews}

def captured (cx : Crypto) (caller : Caller) (tools : List Tool) : CapturedView :=
  { principal := principalBinding cx caller.principal
    presentation := caller.presentation
    view := catalogBinding cx tools viewDomain
    capturedAt := caller.now
    tools := tools }

inductive Stored (cx : Crypto) (entries : CapturedViews) : Event → CapturedViews → Prop
  | same (e : Event) : Stored cx entries e entries
  | inserted (caller : Caller) (tools : List Tool) (cursor : Option String) :
      Stored cx entries (.paginate caller tools cursor) (entries.insert (captured cx caller tools))
  | expired (e : Event) (now : Int) :
      Stored cx entries e (entries.filter (CapturedViews.fresh now))

theorem stepStore_stored (e : Event) : Stored cx entries e (stepStore cx pageSize entries e) := by
  cases e with
  | paginate caller tools cursor =>
    simp only [stepStore, paginate]
    split
    · exact .same _
    · split
      · exact .same _
      · split
        · exact .inserted caller tools cursor
        · exact .same _
  | resume caller cursor =>
    simp only [stepStore, resumeCaptured]
    split
    · exact .same _
    · exact .same _
    · split
      · exact .same _
      · simp only [CapturedViews.get]
        split
        · rename_i heq
          rw [← (Prod.mk.inj heq).2]
          exact .expired _ _
        · rename_i heq
          rw [← (Prod.mk.inj heq).2]
          split
          · exact .expired _ _
          · exact .expired _ _

theorem evict_suffix (entries : CapturedViews) : entries.evict <:+ entries := by
  induction entries with
  | nil => exact suffix_refl _
  | cons held rest ih =>
    simp only [CapturedViews.evict]
    split
    · exact ih.trans (suffix_cons held rest)
    · exact suffix_refl _

theorem evict_length (entries : CapturedViews) : entries.evict.length < capturedViewCapacity := by
  induction entries with
  | nil => exact (by decide : 0 < capturedViewCapacity)
  | cons held rest ih =>
    simp only [CapturedViews.evict]
    split
    · exact ih
    · rename_i hroom
      exact Nat.lt_of_not_le hroom

theorem mem_insert {view : CapturedView} (h : held ∈ entries.insert view) :
    held ∈ entries ∨ held = view := by
  rcases mem_append.mp h with hold | hnew
  · exact .inl (mem_filter.mp ((evict_suffix _).mem hold)).1
  · exact .inr (mem_singleton.mp hnew)

theorem Stored.mem {e : Event} {entries' : CapturedViews} (h : Stored cx entries e entries')
    (hheld : held ∈ entries') :
    held ∈ entries ∨ ∃ caller tools cursor, e = .paginate caller tools cursor
      ∧ held = captured cx caller tools := by
  cases h with
  | same => exact .inl hheld
  | inserted caller tools cursor =>
    exact (mem_insert hheld).imp_right (fun heq => ⟨caller, tools, cursor, rfl, heq⟩)
  | expired now => exact .inl (mem_filter.mp hheld).1

theorem store_captured {history : List Event} (h : held ∈ store cx pageSize history) :
    ∃ caller tools cursor, .paginate caller tools cursor ∈ history
      ∧ held = captured cx caller tools := by
  refine foldl_invariant (I := fun entries : CapturedViews => ∀ held ∈ entries,
    ∃ caller tools cursor, .paginate caller tools cursor ∈ history
      ∧ held = captured cx caller tools) (fun entries e he hentries held hheld => ?_)
    (fun held hheld => absurd hheld not_mem_nil) held h
  rcases (stepStore_stored e).mem hheld with hold | ⟨caller, tools, cursor, rfl, heq⟩
  · exact hentries held hold
  · exact ⟨caller, tools, cursor, he, heq⟩

def CapturedView.key (held : CapturedView) : String × ToolListPresentation × String :=
  (held.principal, held.presentation, held.view)

theorem serves_iff {view : CapturedView} :
    held.serves view.principal view.presentation view.view = true ↔ held.key = view.key := by
  simp only [CapturedView.serves, CapturedView.key, Bool.and_eq_true, beq_iff_eq, Prod.mk.injEq,
    and_assoc]

/-- No more is held than there is room for, and nothing twice. -/
structure Bounded (entries : CapturedViews) : Prop where
  length : entries.length ≤ capturedViewCapacity
  nodup : (entries.map CapturedView.key).Nodup

theorem Bounded.insert (h : Bounded entries) (view : CapturedView) :
    Bounded (entries.insert view) := by
  refine ⟨?_, ?_⟩
  · have hroom := evict_length (entries.filter (fun held => CapturedViews.fresh view.capturedAt held
      && !held.serves view.principal view.presentation view.view))
    rw [CapturedViews.insert, length_append]
    exact hroom
  · rw [CapturedViews.insert, map_append, nodup_append]
    refine ⟨?_, nodup_singleton _, fun k hk k' hk' heq => ?_⟩
    · exact h.nodup.sublist (((evict_suffix _).sublist.trans filter_sublist).map _)
    · rcases mem_map.mp hk with ⟨held, hheld, rfl⟩
      have hother := (mem_filter.mp ((evict_suffix _).mem hheld)).2
      rw [mem_singleton.mp hk'] at heq
      rw [serves_iff.mpr heq, Bool.not_true, Bool.and_false] at hother
      cases hother

theorem Stored.bounded {e : Event} {entries' : CapturedViews} (h : Stored cx entries e entries')
    (hentries : Bounded entries) : Bounded entries' := by
  cases h with
  | same => exact hentries
  | inserted caller tools cursor => exact hentries.insert _
  | expired now =>
    exact ⟨Nat.le_trans (length_filter_le _ _) hentries.length,
      hentries.nodup.sublist (filter_sublist.map _)⟩

theorem store_bounded (cx : Crypto) (pageSize : Nat) (history : List Event) :
    Bounded (store cx pageSize history) :=
  foldl_invariant (fun _ e _ hentries => (stepStore_stored e).bounded hentries)
    ⟨Nat.zero_le _, nodup_nil⟩

end Store

section Pages

variable {page : ToolListPage} {cursor : String} {caller : Caller} {entries : CapturedViews}
  {cx : Crypto} {pageSize : Nat} {tools : List Tool}

/-- A cursor continues the list at a position. There is none at its end. -/
def CursorAt (cx : Crypto) (tools : List Tool) (position : Nat) : Option String → Prop
  | none => tools.length ≤ position
  | some cursor => cursor ≠ "" ∧ ∃ claims, cx.decrypt cursor = some claims
      ∧ claims.view = catalogBinding cx tools viewDomain ∧ claims.offset = position

theorem toolPage_ok {start : Nat} {now : Int} {binding : String} {nonce : List UInt8}
    (h : toolPage cx tools start pageSize now binding (catalogBinding cx tools viewDomain) nonce
      = .ok page) :
    ∃ position, page.tools ++ tools.drop position = tools.drop start
      ∧ CursorAt cx tools position page.nextCursor := by
  have hcut : ∀ stop, start ≤ stop →
      (tools.drop start).take (stop - start) ++ tools.drop stop = tools.drop start := by
    intro stop hle
    rw [← Nat.add_sub_cancel' hle, ← drop_drop, Nat.add_sub_cancel_left,
      take_append_drop]
  simp only [toolPage] at h
  split at h
  · rename_i hmore
    rw [encodeCursor] at h
    split at h
    · cases h
    · split at h
      · rename_i cursor hseal
        cases h
        refine ⟨_, hcut _ ?_, ?_, _, cx.decrypt_encrypt _ _ _ hseal, rfl, rfl⟩
        · omega
        · rintro rfl
          exact cx.encrypt_ne_empty _ _ hseal
      · cases h
  · rename_i hlast
    cases h
    refine ⟨max start tools.length, ?_, Nat.le_max_right _ _⟩
    rw [drop_eq_nil_of_le (Nat.le_max_right start tools.length), append_nil]
    refine take_of_length_le ?_
    rw [length_drop]
    omega

theorem openCursor_ok {clock : Int} {principal kind operation : String} {claims : CursorClaims}
    (h : openCursor cx cursor clock principal kind operation = .ok claims) :
    cx.decrypt cursor = some claims := by
  unfold openCursor at h
  split at h
  · cases h
  rename_i claims' hopened
  split at h
  · cases h
  split at h
  · cases h
  cases h
  unfold openSealed at hopened
  split at hopened
  · cases hopened
  split at hopened
  · cases hopened
  rename_i claims' hdecrypt
  split at hopened
  · cases hopened
  · cases hopened
    exact hdecrypt

theorem checkedOffset_ok {offset itemCount start : Nat}
    (h : checkedOffset offset itemCount = .ok start) : start = offset := by
  unfold checkedOffset at h
  split at h
  · cases h
  · cases h
    rfl

theorem paginate_ok (hcursor : cursor ≠ "")
    (h : (paginate cx pageSize caller tools (some cursor) entries).1 = .ok page) :
    ∃ claims, cx.decrypt cursor = some claims ∧ claims.view = catalogBinding cx tools viewDomain
      ∧ toolPage cx tools claims.offset pageSize caller.now (principalBinding cx caller.principal)
        (catalogBinding cx tools viewDomain) caller.nonce = .ok page := by
  simp only [paginate] at h
  split at h
  · cases h
  rename_i start hstart
  split at h
  · cases h
  rename_i page' hpage
  cases h
  simp only [pageStart] at hstart
  unfold decodeCursor at hstart
  split at hstart
  · cases hstart
  rename_i claims hopened
  split at hstart
  · cases hstart
  rename_i hview
  refine ⟨claims, openCursor_ok hopened, not_not.mp hview, ?_⟩
  cases hoffset : checkedOffset claims.offset tools.length with
  | error reason =>
    rw [hoffset] at hstart
    cases hstart
  | ok start' =>
    rw [hoffset] at hstart
    cases hstart
    rw [← checkedOffset_ok hoffset]
    exact hpage

theorem resumeCaptured_ok
    (h : (resumeCaptured cx pageSize caller (some cursor) entries).1 = .ok (some page)) :
    ∃ claims, cx.decrypt cursor = some claims ∧ ∃ held ∈ entries,
      CapturedViews.fresh caller.now held = true
      ∧ held.serves (principalBinding cx caller.principal) caller.presentation claims.view = true
      ∧ toolPage cx held.tools claims.offset pageSize caller.now
        (principalBinding cx caller.principal) claims.view caller.nonce = .ok page := by
  simp only [resumeCaptured] at h
  split at h
  · cases h
  · cases h
  rename_i cursor' _ heq
  cases heq
  split at h
  · cases h
  rename_i claims hopened
  refine ⟨claims, openCursor_ok hopened, ?_⟩
  simp only [CapturedViews.get] at h
  cases hfind : (entries.filter (CapturedViews.fresh caller.now)).find? (fun held =>
      held.serves (principalBinding cx caller.principal) caller.presentation claims.view) with
  | none =>
    rw [hfind] at h
    cases h
  | some held =>
    rw [hfind] at h
    have hmem := mem_filter.mp (mem_of_find?_eq_some hfind)
    have hserves := find?_some hfind
    refine ⟨held, hmem.1, hmem.2, hserves, ?_⟩
    simp only [Option.map_some] at h
    split at h
    · cases h
    rename_i start hoffset
    rw [← checkedOffset_ok hoffset]
    cases hpage : toolPage cx held.tools start pageSize caller.now
        (principalBinding cx caller.principal) claims.view caller.nonce with
    | error e =>
      rw [hpage] at h
      cases h
    | ok page' =>
      rw [hpage] at h
      cases h
      rfl

/-- The pages a client gets from a cursor on. Before each request of its own,
    others do what they like. A request is served from a list that is held, or
    else from one that is built for it. -/
inductive Continued (cx : Crypto) (pageSize : Nat) (principal : Option Json)
    (presentation : ToolListPresentation) :
    List Event → Option String → List (List Tool) → Prop
  | done (history : List Event) :
      Continued cx pageSize principal presentation history none []
  | resumed (history others : List Event) (cursor : String) (now clock : Int) (nonce : List UInt8)
      (page : ToolListPage) (rest : List (List Tool))
      (hresume : (resumeCaptured cx pageSize ⟨principal, presentation, now, clock, nonce⟩
        (some cursor) (store cx pageSize (history ++ others))).1 = .ok (some page))
      (hrest : Continued cx pageSize principal presentation (history ++ others
        ++ [.resume ⟨principal, presentation, now, clock, nonce⟩ (some cursor)])
        page.nextCursor rest) :
      Continued cx pageSize principal presentation history (some cursor) (page.tools :: rest)
  | rebuilt (history others later : List Event) (cursor : String) (caller : Caller)
      (live : List Tool) (now clock : Int) (nonce : List UInt8) (page : ToolListPage)
      (rest : List (List Tool)) (hprincipal : caller.principal = principal)
      (hpresentation : caller.presentation = presentation)
      (hresume : (resumeCaptured cx pageSize caller (some cursor)
        (store cx pageSize (history ++ others))).1 = .ok none)
      (hpaginate : (paginate cx pageSize ⟨principal, presentation, now, clock, nonce⟩ live
        (some cursor) (store cx pageSize
          (history ++ others ++ .resume caller (some cursor) :: later))).1 = .ok page)
      (hrest : Continued cx pageSize principal presentation (history ++ others
        ++ .resume caller (some cursor) :: later
        ++ [.paginate ⟨principal, presentation, now, clock, nonce⟩ live (some cursor)])
        page.nextCursor rest) :
      Continued cx pageSize principal presentation history (some cursor) (page.tools :: rest)

/-- The pages from a cursor on are the rest of its list. -/
theorem continued_flatten (hhash : Function.Injective cx.blake3) {principal : Option Json}
    {presentation : ToolListPresentation} {history : List Event} {cursor : Option String}
    {pages : List (List Tool)}
    (h : Continued cx pageSize principal presentation history cursor pages) {position : Nat}
    (hcursor : CursorAt cx tools position cursor) : pages.flatten = tools.drop position := by
  induction h generalizing position with
  | done history => exact (drop_eq_nil_of_le hcursor).symm
  | resumed history others cursor now clock nonce page rest hresume _ ih =>
    rcases hcursor with ⟨-, claims, hdecrypt, hview, hoffset⟩
    rcases resumeCaptured_ok hresume with ⟨claims', hdecrypt', held, hheld, -, hserves, hpage⟩
    cases hdecrypt.symm.trans hdecrypt'
    -- The list is held under its own binding, which the cursor names.
    rcases store_captured hheld with ⟨caller', tools', cursor', -, rfl⟩
    simp only [captured, CapturedView.serves, Bool.and_eq_true, beq_iff_eq] at hserves hpage
    have htools : tools' = tools := catalogBinding_inj hhash (hserves.2.trans hview)
    subst htools
    rw [hoffset, hview] at hpage
    rcases toolPage_ok hpage with ⟨position', hcut, hnext⟩
    rw [flatten_cons, ih hnext, hcut]
  | rebuilt history others later cursor caller live now clock nonce page rest _ _ _ hpaginate _
      ih =>
    rcases hcursor with ⟨hne, claims, hdecrypt, hview, hoffset⟩
    rcases paginate_ok hne hpaginate with ⟨claims', hdecrypt', hview', hpage⟩
    cases hdecrypt.symm.trans hdecrypt'
    have htools : live = tools := catalogBinding_inj hhash (hview'.symm.trans hview)
    subst htools
    rw [hoffset] at hpage
    rcases toolPage_ok hpage with ⟨position', hcut, hnext⟩
    rw [flatten_cons, ih hnext, hcut]

theorem paginate_first {cursor : Option String} (hcursor : cursor = none ∨ cursor = some "")
    (h : (paginate cx pageSize caller tools cursor entries).1 = .ok page) :
    toolPage cx tools 0 pageSize caller.now (principalBinding cx caller.principal)
      (catalogBinding cx tools viewDomain) caller.nonce = .ok page := by
  have hstart : pageStart cx cursor caller.clock (principalBinding cx caller.principal)
      (catalogBinding cx tools viewDomain) tools.length = .ok 0 := by
    rcases hcursor with rfl | rfl
    · rfl
    · rfl
  simp only [paginate, hstart] at h
  split at h
  · cases h
  · rename_i page' hpage
    cases h
    exact hpage

theorem resumeCaptured_captured {history : List Event}
    (h : (resumeCaptured cx pageSize caller (some cursor) (store cx pageSize history)).1
      = .ok (some page)) :
    ∃ other tools cursor', .paginate other tools cursor' ∈ history
      ∧ captured cx other tools ∈ store cx pageSize history
      ∧ principalBinding cx other.principal = principalBinding cx caller.principal
      ∧ other.presentation = caller.presentation ∧ caller.now - other.now ≤ 60
      ∧ ∃ start, toolPage cx tools start pageSize caller.now
        (principalBinding cx caller.principal) (catalogBinding cx tools viewDomain) caller.nonce
          = .ok page := by
  rcases resumeCaptured_ok h with ⟨claims, -, held, hstored, hfresh, hserves, hpage⟩
  rcases store_captured hstored with ⟨other, tools, cursor', hmem, rfl⟩
  simp only [captured, CapturedView.serves, Bool.and_eq_true, beq_iff_eq] at hserves hpage
  rw [← hserves.2] at hpage
  refine ⟨other, tools, cursor', hmem, hstored, hserves.1.1, hserves.1.2, ?_, _, hpage⟩
  have hheld := of_decide_eq_true hfresh
  simp only [captured, capturedViewRetentionSeconds, saturate] at hheld
  omega

/-- However requests interleave: when a client's first page and its continuations
    are accepted up to the last, they are the list its first page was cut from. A
    list that is held serves only a caller it was captured for, within a minute,
    and the lists that are held are bounded and distinct. -/
theorem traversal_pages_one_view (cx : Crypto) (hhash : Function.Injective cx.blake3)
    (pageSize : Nat) (principal : Option Json) (presentation : ToolListPresentation) :
    (∀ (tools : List Tool) (history : List Event) (cursor : Option String) (now clock : Int)
        (nonce : List UInt8) (page : ToolListPage) (pages : List (List Tool)),
      (cursor = none ∨ cursor = some "") →
      (paginate cx pageSize ⟨principal, presentation, now, clock, nonce⟩ tools cursor
        (store cx pageSize history)).1 = .ok page →
      Continued cx pageSize principal presentation
        (history ++ [.paginate ⟨principal, presentation, now, clock, nonce⟩ tools cursor])
        page.nextCursor pages →
      (page.tools :: pages).flatten = tools)
    ∧ (∀ (history : List Event) (caller : Caller) (cursor : String) (page : ToolListPage),
      (resumeCaptured cx pageSize caller (some cursor) (store cx pageSize history)).1
        = .ok (some page) →
      ∃ other tools cursor', .paginate other tools cursor' ∈ history
        ∧ captured cx other tools ∈ store cx pageSize history
        ∧ principalBinding cx other.principal = principalBinding cx caller.principal
        ∧ other.presentation = caller.presentation ∧ caller.now - other.now ≤ 60
        ∧ ∃ start, toolPage cx tools start pageSize caller.now
          (principalBinding cx caller.principal) (catalogBinding cx tools viewDomain) caller.nonce
            = .ok page)
    ∧ ∀ history : List Event, (store cx pageSize history).length ≤ 16
      ∧ ((store cx pageSize history).map CapturedView.key).Nodup := by
  refine ⟨?_, fun history caller cursor page => resumeCaptured_captured, fun history => ?_⟩
  · intro tools history cursor now clock nonce page pages hcursor hfirst hrest
    rcases toolPage_ok (paginate_first hcursor hfirst) with ⟨position, hcut, hnext⟩
    rw [flatten_cons, continued_flatten hhash hrest hnext, hcut, drop_zero]
  · exact ⟨(store_bounded cx pageSize history).length, (store_bounded cx pageSize history).nodup⟩

end Pages

section Sample

def sampleHash (bytes : List UInt8) : String :=
  String.ofList (bytes.map (fun b => Char.ofNat b.toNat))

def bareCrypto : Crypto :=
  { blake3 := sampleHash
    encrypt := fun _ _ => none
    decrypt := fun _ => none
    decrypt_encrypt := nofun
    encrypt_ne_empty := nofun }

def listedTool (name : String) : Tool :=
  ⟨.object [("name", .string name)], ⟨trivial, trivial⟩⟩

def sampleTools : List Tool := [listedTool "read", listedTool "write"]

def sampleClaims : CursorClaims :=
  { kind := "tl1"
    exp := 300
    offset := 1
    principal := principalBinding bareCrypto none
    view := catalogBinding bareCrypto sampleTools viewDomain }

def sampleCrypto : Crypto :=
  { blake3 := sampleHash
    encrypt := fun _ claims => if claims = sampleClaims then some "continuation" else none
    decrypt := fun cursor => if cursor = "continuation" then some sampleClaims else none
    decrypt_encrypt := fun nonce claims cursor h => by
      split at h
      · rename_i heq
        cases h
        rw [heq]
        rfl
      · cases h
    encrypt_ne_empty := fun nonce claims h => by
      split at h
      · exact absurd (Option.some.inj h) (by decide)
      · cases h }

theorem sampleHash_injective : Function.Injective sampleHash := by
  intro a b h
  refine map_injective_iff.mpr (fun x y hxy => ?_) (String.ofList_injective h)
  have hchar : ∀ z : UInt8, (Char.ofNat z.toNat).toNat = z.toNat := fun z => by
    have hz : z.toNat.isValidChar := .inl (Nat.lt_trans z.toNat_lt (by decide))
    rw [Char.ofNat, dif_pos hz]
    rfl
  rw [← UInt8.toNat_inj, ← hchar x, ← hchar y]
  exact congrArg Char.toNat hxy

theorem traversal_pages_one_view_resumed :
    [[listedTool "read"], [listedTool "write"]].flatten = sampleTools :=
  (traversal_pages_one_view sampleCrypto sampleHash_injective 1 none ⟨"full", true, false⟩).1
    sampleTools [] none 0 0 [] ⟨[listedTool "read"], some "continuation"⟩ [[listedTool "write"]]
    (.inl rfl) rfl
    (.resumed _ [] "continuation" 30 30 [] ⟨[listedTool "write"], none⟩ [] rfl (.done _))

end Sample

end Waygate.Mcp
