import Execlaw.Attachments
import Execlaw.Utf8Lossy
import Execlaw.Utf8Pages
/-!
# ToolResultPages — a stored tool result read page by page (`core/src/attachments.rs`)

`read_tool_result_artifact` answers with a page of a stored text and with the offset of the next one, where the reader
goes on until that is the end.  The two ends of a page are moved to boundaries in opposite directions.  So a page whose
limit is less than the width of the character it begins with holds nothing, and its next offset is its own.
-/
namespace Execlaw

open Table
open Utf8Text (bytes size slice fromUtf8 utf8Error ceilBoundary floorBoundary restFrom fill deals)

/-- A row of `state_tool_result_artifacts`, with the columns a reader looks at. -/
structure ToolResultArtifactRow extends ToolResultRow where
  mimeType : String
  expiresAt : Int

structure ToolResults where
  rows : Keyed (fun r : ToolResultArtifactRow => r.artifactId) (fun _ => True)
  files : String → Except String (List UInt8)

structure ToolResultArtifactChunk where
  artifactId : String
  sha256 : String
  mimeType : String
  offset : Nat
  nextOffset : Nat
  totalBytes : Nat
  content : List Char

structure ToolResultScope where
  artifactsRoot : String
  artifactId : String
  conversationId : String
  runId : String

structure PageCall where
  asked : ToolResults
  locked : ToolResults
  limit : Nat
  now : Int

namespace ToolResultScope

/-- The `WHERE` of both queries. -/
def reads (scope : ToolResultScope) (now : Int) (r : ToolResultArtifactRow) : Bool :=
  r.conversationId == scope.conversationId && r.runId == scope.runId && decide (now < r.expiresAt)

def stillAuthorized (scope : ToolResultScope) (now : Int) (row : ToolResultArtifactRow) (s : ToolResults) : Bool :=
  (s.rows.row scope.artifactId).any fun r =>
    scope.reads now r && r.sha256 == row.sha256 && r.byteLength == row.byteLength

end ToolResultScope

def pageLimit (limit : Nat) : Nat := max 1 (min limit 8192)

def pageBounds (text : List Char) (offset limit : Nat) : Nat × Nat :=
  let start := ceilBoundary text (min offset (size text))
  let maxEnd := min (start + pageLimit limit) (size text)
  (start, floorBoundary text start maxEnd)

/-- The answer; `none` is the panic of a slice that cuts a character. -/
def readToolResultArtifact (sha : Sha256) (scope : ToolResultScope) (call : PageCall) (offset : Nat) :
    Option (Except AttachmentError (Option ToolResultArtifactChunk)) :=
  match (call.asked.rows.row scope.artifactId).filter (scope.reads call.now) with
  | none => some (.ok none)
  | some row =>
    let path := pluginArtifactPath scope.artifactsRoot row.sha256
    -- the column is read as a `u64`
    if row.byteLength < 0 then some (.error .sqlite)
    else if !scope.stillAuthorized call.now row call.locked then some (.ok none)
    else
      match call.locked.files path with
      | .error error => some (.error (.migration s!"tool result artifact read {path}: {error}"))
      | .ok content =>
        if sha.hex content ≠ row.sha256 ∨ (content.length : Int) ≠ row.byteLength then
          some (.error (.invariant "tool result artifact integrity check failed"))
        else
          match fromUtf8 content with
          | none =>
            some (.error (.invariant ("tool result artifact is not UTF-8 JSON: " ++ utf8Error content)))
          | some text =>
            let (start, stop) := pageBounds text offset call.limit
            (slice text start stop).map fun content => .ok (some {
              artifactId := scope.artifactId
              sha256 := row.sha256
              mimeType := row.mimeType
              offset := start
              nextOffset := stop
              totalBytes := row.byteLength.toNat
              content := content })

def ToolResults.Stores (s : ToolResults) (sha : Sha256) (scope : ToolResultScope) (now : Int) (text : List Char) :
    Prop :=
  (∃ r, s.rows.row scope.artifactId = some r ∧ scope.reads now r = true ∧ r.sha256 = sha.hex (bytes text) ∧
    r.byteLength = size text) ∧
  s.files (pluginArtifactPath scope.artifactsRoot (sha.hex (bytes text))) = .ok (bytes text)

def PageCall.Finds (call : PageCall) (sha : Sha256) (scope : ToolResultScope) (text : List Char) : Prop :=
  call.asked.Stores sha scope call.now text ∧ call.locked.Stores sha scope call.now text

section Page

variable {sha : Sha256} {scope : ToolResultScope} {call : PageCall} {text : List Char}

theorem read_page (h : call.Finds sha scope text) (offset : Nat) : ∃ p c, text = p ++ restFrom text offset ∧
    readToolResultArtifact sha scope call offset = some (.ok (some c)) ∧ c.offset = size p ∧
    c.content = (fill (pageLimit call.limit) (restFrom text offset)).1 ∧
    c.nextOffset = size p + size c.content ∧ c.totalBytes = size text := by
  obtain ⟨⟨⟨row, hrow, hreads, hsha, hlen⟩, -⟩, ⟨⟨row', hrow', hreads', hsha', hlen'⟩, hfile⟩⟩ := h
  obtain ⟨p, hp, hstart⟩ := Utf8Text.ceilBoundary_min text offset
  generalize hr : restFrom text offset = r at hp ⊢
  have hstop := Utf8Text.floorBoundary_min p r (pageLimit call.limit)
  have hbounds : pageBounds text offset call.limit = (size p, size p + size (fill (pageLimit call.limit) r).1) := by
    rw [pageBounds, hstart, ← hstop, ← hp]
  have hslice : slice text (size p) (size p + size (fill (pageLimit call.limit) r).1) =
      some (fill (pageLimit call.limit) r).1 := by
    have h := Utf8Text.slice_append p (fill (pageLimit call.limit) r).1 (fill (pageLimit call.limit) r).2
    rwa [List.append_assoc, Utf8Text.fill_append, ← hp] at h
  refine ⟨p, ⟨scope.artifactId, row.sha256, row.mimeType, size p, size p + size (fill (pageLimit call.limit) r).1,
    row.byteLength.toNat, (fill (pageLimit call.limit) r).1⟩, hp, ?_, rfl, rfl, rfl, by simp [hlen]⟩
  have hasked : (call.asked.rows.row scope.artifactId).filter (scope.reads call.now) = some row := by
    rw [hrow, Option.filter, if_pos hreads]
  have hlocked : scope.stillAuthorized call.now row call.locked = true := by
    simp [ToolResultScope.stillAuthorized, hrow', hreads', hsha, hsha', hlen, hlen']
  have htext : fromUtf8 (bytes text) = some text := Utf8Text.fromUtf8_eq_some.2 rfl
  simp only [readToolResultArtifact, hasked]
  rw [hlocked, hsha, hfile]
  simp [hlen, htext, hbounds, hslice]

end Page

/-! ## Paging -/

section Paging

variable (sha : Sha256) (scope : ToolResultScope) (calls : Nat → PageCall)

/-- **The reader's loop** from call `i` on: it asks again at each next offset until that is the end. -/
inductive Paging : Nat → Nat → List ToolResultArtifactChunk → Prop
  | last {i offset : Nat} {c : ToolResultArtifactChunk}
      (hread : readToolResultArtifact sha scope (calls i) offset = some (.ok (some c)))
      (hend : c.nextOffset = c.totalBytes) : Paging i offset [c]
  | next {i offset : Nat} {c : ToolResultArtifactChunk} {chunks : List ToolResultArtifactChunk}
      (hread : readToolResultArtifact sha scope (calls i) offset = some (.ok (some c)))
      (hend : c.nextOffset ≠ c.totalBytes) (hrest : Paging (i + 1) c.nextOffset chunks) : Paging i offset (c :: chunks)

def ToolResultArtifactChunk.Advances (c : ToolResultArtifactChunk) (limit : Nat) : Prop :=
  c.offset < c.totalBytes → c.content ≠ [] ∧ c.nextOffset = c.offset + size c.content ∧
    (size c.content ≤ pageLimit limit ∨ c.content.length = 1)

/-- Every call advances, from call `i` on. -/
def AllAdvance : Nat → List ToolResultArtifactChunk → Prop
  | _, [] => True
  | i, c :: chunks => c.Advances (calls i).limit ∧ AllAdvance (i + 1) chunks

/-- **Paging reaches the end**: the loop ends, at the end of the text, every call of it advances, and the pages put
together are what the text has from the first boundary at or behind the offset. -/
def ReachesEnd (text : List Char) (i offset : Nat) : Prop := ∃ chunks, Paging sha scope calls i offset chunks ∧
  chunks.getLast?.map (fun c => c.nextOffset) = some (size text) ∧ AllAdvance calls i chunks ∧
  chunks.flatMap (fun c => c.content) = restFrom text offset

variable {sha scope calls} {text : List Char} {i offset : Nat} {chunks : List ToolResultArtifactChunk}

abbrev rooms (calls : Nat → PageCall) (i : Nat) : Nat := pageLimit (calls i).limit

theorem page_rest (h : ∀ i, (calls i).Finds sha scope text) (i offset : Nat) :
    ∃ c, readToolResultArtifact sha scope (calls i) offset = some (.ok (some c)) ∧
      c.content = (fill (rooms calls i) (restFrom text offset)).1 ∧
      restFrom text c.nextOffset = (fill (rooms calls i) (restFrom text offset)).2 ∧
      c.nextOffset = c.offset + size c.content ∧ c.totalBytes = size text ∧
      (c.offset < c.totalBytes ↔ restFrom text offset ≠ []) ∧
      (c.nextOffset = c.totalBytes ↔ (fill (rooms calls i) (restFrom text offset)).2 = []) := by
  obtain ⟨p, c, hp, hread, hoffset, hcontent, hnext, htotal⟩ := read_page (h i) offset
  generalize restFrom text offset = r at hp hcontent ⊢
  have hr := Utf8Text.fill_append (rooms calls i) r
  have htext : text = (p ++ (fill (rooms calls i) r).1) ++ (fill (rooms calls i) r).2 := by
    rw [List.append_assoc, hr, hp]
  have hnextSize : c.nextOffset = size (p ++ (fill (rooms calls i) r).1) := by
    rw [hnext, hcontent, Utf8Text.size_append]
  have hnil : ∀ t : List Char, t = [] ↔ size t = 0 :=
    fun t => ⟨fun ht => by rw [ht]; rfl, fun ht => by_contra fun hne => (Utf8Text.size_pos hne).ne' ht⟩
  refine ⟨c, hread, hcontent, ?_, by rw [hnext, hoffset], htotal, ?_, ?_⟩
  · conv_lhs => rw [hnextSize, htext]
    exact Utf8Text.restFrom_append _ _
  · rw [hoffset, htotal, hp, Utf8Text.size_append, ne_eq, hnil]
    omega
  · have hsize := congrArg size htext
    rw [Utf8Text.size_append, ← hnextSize] at hsize
    rw [htotal, hnil]
    omega

theorem deals_of_paging (h : ∀ i, (calls i).Finds sha scope text) (hrun : Paging sha scope calls i offset chunks)
    (hadv : AllAdvance calls i chunks) : deals (rooms calls) i (restFrom text offset) = true := by
  induction hrun with
  | @last i offset c hread hend =>
    obtain ⟨c', hread', hcontent, -, -, -, hbefore, hdone⟩ := page_rest h i offset
    obtain rfl : c = c' := by simpa using hread.symm.trans hread'
    rw [Utf8Text.deals_iff, hdone.1 hend, ← hcontent]
    by_cases hr : restFrom text offset = []
    · exact .inl hr
    · exact .inr ⟨(hadv.1 (hbefore.2 hr)).1, rfl⟩
  | @next i offset c chunks hread hend hrest ih =>
    obtain ⟨c', hread', hcontent, hleft, -, -, hbefore, hdone⟩ := page_rest h i offset
    obtain rfl : c = c' := by simpa using hread.symm.trans hread'
    rw [Utf8Text.deals_iff, ← hcontent, ← hleft]
    by_cases hr : restFrom text offset = []
    · exact .inl hr
    · exact .inr ⟨(hadv.1 (hbefore.2 hr)).1, ih hadv.2⟩

theorem reachesEnd_of_deals (h : ∀ i, (calls i).Finds sha scope text)
    (hdeals : deals (rooms calls) i (restFrom text offset) = true) : ReachesEnd sha scope calls text i offset := by
  -- by induction on what is left of the text
  induction hn : (restFrom text offset).length using Nat.strong_induction_on generalizing i offset with
  | _ n ih =>
    subst hn
    obtain ⟨c, hread, hcontent, hleft, hnext, htotal, hbefore, hdone⟩ := page_rest h i offset
    have happ := Utf8Text.fill_append (rooms calls i) (restFrom text offset)
    have hroom := Utf8Text.size_fill_le (rooms calls i) (restFrom text offset)
    rw [← hleft] at hdone
    rw [← hcontent, ← hleft] at happ
    rw [← hcontent] at hroom
    rw [Utf8Text.deals_iff, ← hcontent, ← hleft] at hdeals
    have hadv : c.Advances (calls i).limit := fun hlt =>
      ⟨(hdeals.resolve_left (hbefore.1 hlt)).1, hnext, .inl hroom⟩
    by_cases hend : c.nextOffset = c.totalBytes
    · rw [hdone.1 hend, List.append_nil] at happ
      exact ⟨[c], .last hread hend, by simp [hend, htotal], ⟨hadv, trivial⟩, by simpa using happ⟩
    · have hr : restFrom text offset ≠ [] := by
        intro hr
        rw [hr] at happ
        exact hend (hdone.2 (List.append_eq_nil_iff.1 happ).2)
      obtain ⟨hne, hdeals⟩ := hdeals.resolve_left hr
      have hshort : (restFrom text c.nextOffset).length < (restFrom text offset).length := by
        have hpos := List.length_pos_iff.2 hne
        rw [← happ, List.length_append]
        omega
      obtain ⟨chunks, hrun, hlast, hchunks, hconcat⟩ := ih _ hshort hdeals rfl
      refine ⟨c :: chunks, .next hread hend hrun, ?_, ⟨hadv, hchunks⟩, by rw [List.flatMap_cons, hconcat, happ]⟩
      cases chunks with
      | nil => simp at hlast
      | cons d chunks => simpa [List.getLast?_cons_cons] using hlast

/-- **Paging reaches the end** exactly when, dealing the text out over the pages, every character fits in the clamped
limit of the page it comes to. -/
theorem pages_reach_end_iff (h : ∀ i, (calls i).Finds sha scope text) (offset : Nat) :
    ReachesEnd sha scope calls text 0 offset ↔
      deals (fun i => pageLimit (calls i).limit) 0 (restFrom text offset) = true := by
  constructor
  · rintro ⟨chunks, hrun, -, hadv, -⟩
    exact deals_of_paging h hrun hadv
  · exact reachesEnd_of_deals h

theorem paging_ends_iff {room : Nat} (h : ∀ i, (calls i).Finds sha scope text)
    (hlimit : ∀ i, pageLimit (calls i).limit = room) (offset : Nat) :
    (∃ chunks, Paging sha scope calls 0 offset chunks) ↔ ∀ c ∈ restFrom text offset, c.utf8Size ≤ room := by
  have hrooms : rooms calls = fun _ => room := funext hlimit
  have hwidths : ∀ i offset, deals (rooms calls) i (restFrom text offset) = true ↔
      ∀ c ∈ restFrom text offset, c.utf8Size ≤ room := by
    intro i offset
    rw [hrooms, Utf8Text.deals_const, List.all_eq_true]
    simp
  rw [← hwidths 0]
  constructor
  · rintro ⟨chunks, hrun⟩
    generalize 0 = i at hrun ⊢
    induction hrun with
    | @last i offset c hread hend =>
      obtain ⟨c', hread', -, -, -, -, -, hdone⟩ := page_rest h i offset
      obtain rfl : c = c' := by simpa using hread.symm.trans hread'
      have happ := Utf8Text.fill_append (rooms calls i) (restFrom text offset)
      rw [hdone.1 hend, List.append_nil] at happ
      rw [Utf8Text.deals_iff, hdone.1 hend, happ]
      exact (em _).imp_right fun hr => ⟨hr, rfl⟩
    | @next i offset c chunks hread hend hrest ih =>
      obtain ⟨c', hread', hcontent, hleft, -, -, -, -⟩ := page_rest h i offset
      obtain rfl : c = c' := by simpa using hread.symm.trans hread'
      have happ := Utf8Text.fill_append (rooms calls i) (restFrom text offset)
      by_cases hpage : (fill (rooms calls i) (restFrom text offset)).1 = []
      · -- the next call is the same as this one
        rw [hpage, List.nil_append, ← hleft] at happ
        rw [hwidths, happ] at ih
        exact (hwidths i offset).2 ih
      · rw [Utf8Text.deals_iff, ← hleft]
        exact .inr ⟨hpage, ih⟩
  · intro hdeals
    obtain ⟨chunks, hrun, -⟩ := reachesEnd_of_deals h hdeals
    exact ⟨chunks, hrun⟩

theorem reachesEnd_of_four_le (h : ∀ i, (calls i).Finds sha scope text) (hlimit : ∀ i, 4 ≤ (calls i).limit)
    (offset : Nat) : ReachesEnd sha scope calls text 0 offset :=
  reachesEnd_of_deals h (Utf8Text.deals_of_four_le fun i => by
    have := hlimit i
    unfold rooms pageLimit
    omega)

end Paging

/-! ### Letters of one to four bytes -/

/-- SHA-256 on the bytes of `é` and of `é€a😀b`. -/
def letterDigest : Sha256 where
  hex bytes :=
    if bytes = [0xC3, 0xA9] then "4a99557e4033c3539de2eb65472017cad5f9557f7a0625a09f1c3f6e2ba69c4c"
    else "abd765f8ca320d02fab465ca498e9d3c8e71d8cfd9e14db6b51954713d24b1bc"
  named bytes := by
    split
    · decide
    · decide

def letterScope : ToolResultScope := ⟨"tool-results", "a", "c", "r"⟩

def letterRow (text : List Char) : ToolResultArtifactRow where
  artifactId := "a"
  conversationId := "c"
  runId := "r"
  sha256 := letterDigest.hex (bytes text)
  byteLength := size text
  mimeType := "application/json; charset=utf-8"
  expiresAt := 2592000

def letterResults (text : List Char) : ToolResults :=
  ⟨Keyed.empty.insertOrIgnore (letterRow text) trivial, fun _ => .ok (bytes text)⟩

def letterCall (text : List Char) (limit : Nat) : PageCall := ⟨letterResults text, letterResults text, limit, 10⟩

theorem letterCall_finds (text : List Char) (limit : Nat) :
    (letterCall text limit).Finds letterDigest letterScope text := by
  have hstores : (letterResults text).Stores letterDigest letterScope 10 text :=
    ⟨⟨letterRow text, rfl, rfl, rfl, rfl⟩, rfl⟩
  exact ⟨hstores, hstores⟩

def letters : List Char := ['é', '€', 'a', '😀', 'b']

/-- Pages of `€a`, `😀` and `b`: the offset is inside the first letter, and a page of five holds four bytes. -/
theorem reachesEnd_of_four_le_letters :
    ReachesEnd letterDigest letterScope (fun i => letterCall letters (if i = 0 then 5 else 4)) letters 0 1 :=
  reachesEnd_of_four_le (fun _ => letterCall_finds letters _) (fun i => by split <;> decide) 1

/-- Pages of `é`, `€a`, `😀` and `b`. -/
theorem pages_reach_end_letters :
    ReachesEnd letterDigest letterScope (fun i => letterCall letters ([2, 5, 4].getD i 0)) letters 0 0 :=
  (pages_reach_end_iff (fun _ => letterCall_finds letters _) 0).2 (by decide)

/-- **A limit of one never gets past the letter**: every page is empty, and its next offset its own. -/
theorem limit_one_stuck : (letterCall ['é'] 1).Finds letterDigest letterScope ['é'] ∧
    (¬ ∃ chunks, Paging letterDigest letterScope (fun _ => letterCall ['é'] 1) 0 0 chunks) ∧
    ¬ ReachesEnd letterDigest letterScope (fun _ => letterCall ['é'] 1) ['é'] 0 0 := by
  have hstuck : ¬ ∃ chunks, Paging letterDigest letterScope (fun _ => letterCall ['é'] 1) 0 0 chunks := by
    rw [paging_ends_iff (fun _ => letterCall_finds ['é'] 1) (fun _ => (rfl : pageLimit 1 = 1))]
    exact fun h => absurd (h 'é' (List.mem_singleton.2 rfl)) (by decide)
  exact ⟨letterCall_finds ['é'] 1, hstuck, fun ⟨chunks, hrun, _⟩ => hstuck ⟨chunks, hrun⟩⟩

end Execlaw
