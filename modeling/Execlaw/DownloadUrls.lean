import Execlaw.Db
import Execlaw.Decimals
import Execlaw.Utf8Lossy
/-!
# DownloadUrls — signed download URLs (`server/src/download_urls.rs`)

A URL carries its expiry, its user and a tag over path, user and expiry.  The verifier rebuilds the three from a query
anyone may have written, through a decoder that never fails: `+` is a space, a malformed escape stands for itself,
bytes that are no UTF-8 become U+FFFD and of repeated names the last counts.

HMAC-SHA256 is the parameter `Mac`.  `NoForgery` says of one query that its tag is of a message that was signed.
-/
namespace Execlaw.DownloadUrls

open Utf8Text (bytes fromUtf8Lossy fromUtf8Lossy_bytes)

def maxTtlSecs : Int := 60 * 60

/-- `Utc::now().timestamp()`: the seconds chrono can tell. -/
abbrev Timestamp := { n : Int // -8334601228800 ≤ n ∧ n ≤ 8210266876799 }

/-! ## Escapes -/

def unreserved (b : UInt8) : Bool :=
  (0x30 ≤ b && b ≤ 0x39) || (0x41 ≤ b && b ≤ 0x5A) || (0x61 ≤ b && b ≤ 0x7A) ||
    b == 0x2D || b == 0x5F || b == 0x2E || b == 0x7E

def hexUpper (n : Nat) : Char := "0123456789ABCDEF".toList.getD n '0'

def escape (b : UInt8) : List Char := ['%', hexUpper (b.toNat / 16), hexUpper (b.toNat % 16)]

def encodeByte (b : UInt8) : List Char := if unreserved b then [Char.ofNat b.toNat] else escape b

def percentEncode (s : List Char) : List Char := (bytes s).flatMap encodeByte

def hexNibble (b : UInt8) : Option UInt8 :=
  if 0x30 ≤ b && b ≤ 0x39 then some (b - 0x30)
  else if 0x61 ≤ b && b ≤ 0x66 then some (b - 0x61 + 10)
  else if 0x41 ≤ b && b ≤ 0x46 then some (b - 0x41 + 10)
  else none

def decodeBytes : List UInt8 → List UInt8
  | [] => []
  | b :: bs =>
    if b = 0x2B then 0x20 :: decodeBytes bs
    else if b = 0x25 then
      match bs with
      | h :: l :: rest =>
        match hexNibble h, hexNibble l with
        | some hi, some lo => (hi <<< 4 ||| lo) :: decodeBytes rest
        | _, _ => b :: decodeBytes (h :: l :: rest)
      | short => b :: decodeBytes short
    else b :: decodeBytes bs

def percentDecode (s : List Char) : List Char := fromUtf8Lossy (decodeBytes (bytes s))

example : percentDecode "a+%4".toList = "a %4".toList ∧ percentDecode "%C3%28".toList = ['\uFFFD', '('] := by decide

/-! ## Queries -/

def splitOnce (sep : Char) (s : List Char) : Option (List Char × List Char) :=
  match s.dropWhile (· != sep) with
  | [] => none
  | _ :: rest => some (s.takeWhile (· != sep), rest)

abbrev Params := List Char → Option (List Char)

/-- One `key=value`, or a key alone; a later key displaces an earlier one. -/
def insertPair (params : Params) (pair : List Char) : Params :=
  let (k, v) := (splitOnce '=' pair).getD (pair, [])
  if k = [] then params else Function.update params (percentDecode k) (some (percentDecode v))

def parseQuery (q : List Char) : Params := (q.splitOn '&').foldl insertPair fun _ => none

/-! ## Signing and verifying -/

def message (path userId : List Char) (exp : Int) : List UInt8 :=
  bytes "execlaw/download-url/v1\n".toList ++ bytes path ++ bytes ['\n'] ++ bytes userId ++ bytes ['\n'] ++
    bytes exp.repr.toList

def computeSig (mac : Mac) (path userId : List Char) (exp : Int) (key : List UInt8) : List Char :=
  Wire.hexEncode (mac key (message path userId exp)).bytes

def expiry (now : Timestamp) (ttlSecs : Int) : Int := now + max 1 (min ttlSecs maxTtlSecs)

def buildSignedUrl (mac : Mac) (now : Timestamp) (path userId : List Char) (ttlSecs : Int) (key : List UInt8) :
    List Char × Int :=
  let exp := expiry now ttlSecs
  (path ++ "?exp=".toList ++ exp.repr.toList ++ "&user=".toList ++ percentEncode userId ++ "&sig=".toList ++
    computeSig mac path userId exp key, exp)

def ctEq (a b : List UInt8) : Bool :=
  if a.length ≠ b.length then false
  else (a.zip b).foldl (fun acc p => acc ||| (p.1 ^^^ p.2)) 0 == 0

structure VerifiedDownloadClaims where
  userId : List Char
  exp : Int

inductive SignedUrlError
  | missingParam (name : String)
  | badExp
  | expired
  | badSig

def required (params : Params) (name : String) : Except SignedUrlError (List Char) :=
  match params name.toList with
  | none => .error (.missingParam name)
  | some v => .ok v

def verifySig (mac : Mac) (now : Timestamp) (path query : List Char) (key : List UInt8) :
    Except SignedUrlError VerifiedDownloadClaims := do
  let params := parseQuery query
  let expStr ← required params "exp"
  let user ← required params "user"
  let sigHex ← required params "sig"
  match parseI64 expStr with
  | none => .error .badExp
  | some exp =>
    if exp < now then .error .expired
    else if !ctEq (bytes (computeSig mac path user exp key)) (bytes sigHex) then .error .badSig
    else .ok ⟨user, exp⟩

/-! ## Escapes come back -/

theorem forall_byte {p : UInt8 → Prop} (h : ∀ n : Fin 256, p (UInt8.ofNat n)) (b : UInt8) : p b := by
  have hb := h ⟨b.toNat, b.toNat_lt⟩
  rwa [UInt8.ofNat_toNat] at hb

theorem hexUpper_spec : ∀ n : Fin 16, String.utf8EncodeChar (hexUpper n) = [UInt8.ofNat (hexUpper n).toNat] ∧
    hexNibble (UInt8.ofNat (hexUpper n).toNat) = some (UInt8.ofNat n) := by decide

theorem join_nibbles : ∀ b : UInt8, UInt8.ofNat (b.toNat / 16) <<< 4 ||| UInt8.ofNat (b.toNat % 16) = b :=
  forall_byte (by decide +kernel)

theorem unreserved_spec : ∀ b : UInt8, unreserved b = true →
    String.utf8EncodeChar (Char.ofNat b.toNat) = [b] ∧ b ≠ 0x2B ∧ b ≠ 0x25 :=
  forall_byte (by decide +kernel)

theorem decodeBytes_cons {b : UInt8} (hplus : b ≠ 0x2B) (hpct : b ≠ 0x25) (bs : List UInt8) :
    decodeBytes (b :: bs) = b :: decodeBytes bs := by
  rw [decodeBytes.eq_def]
  simp [hplus, hpct]

theorem decodeBytes_escape (b : UInt8) (rest : List UInt8) :
    decodeBytes (bytes (escape b) ++ rest) = b :: decodeBytes rest := by
  have hb := b.toNat_lt
  obtain ⟨hi, hhi⟩ := hexUpper_spec ⟨b.toNat / 16, by omega⟩
  obtain ⟨lo, hlo⟩ := hexUpper_spec ⟨b.toNat % 16, by omega⟩
  have hpct : String.utf8EncodeChar '%' = [0x25] := by decide
  rw [escape, Utf8Text.bytes_cons, Utf8Text.bytes_cons, Utf8Text.bytes_cons, hpct, hi, lo]
  simp only [List.cons_append, List.nil_append, Utf8Text.bytes, List.flatMap_nil]
  rw [decodeBytes.eq_def]
  simp only [hhi, hlo, join_nibbles, if_true]
  rfl

theorem decodeBytes_encodeByte (b : UInt8) (rest : List UInt8) :
    decodeBytes (bytes (encodeByte b) ++ rest) = b :: decodeBytes rest := by
  rw [encodeByte]
  by_cases h : unreserved b = true
  · obtain ⟨henc, hplus, hpct⟩ := unreserved_spec b h
    rw [if_pos h, Utf8Text.bytes_cons, henc]
    exact decodeBytes_cons hplus hpct rest
  · rw [if_neg h]
    exact decodeBytes_escape b rest

theorem decodeBytes_encode : ∀ bs : List UInt8, decodeBytes (bytes (bs.flatMap encodeByte)) = bs
  | [] => rfl
  | b :: bs => by
    rw [List.flatMap_cons, Utf8Text.bytes_append, decodeBytes_encodeByte, decodeBytes_encode bs]

theorem percentDecode_percentEncode (s : List Char) : percentDecode (percentEncode s) = s := by
  rw [percentDecode, percentEncode, decodeBytes_encode, fromUtf8Lossy_bytes]

theorem decodeBytes_plain : ∀ {bs : List UInt8}, (∀ b ∈ bs, b ≠ 0x2B ∧ b ≠ 0x25) → decodeBytes bs = bs
  | [], _ => rfl
  | b :: bs, h => by
    obtain ⟨hplus, hpct⟩ := h b List.mem_cons_self
    rw [decodeBytes_cons hplus hpct, decodeBytes_plain fun x hx => h x (List.mem_cons_of_mem b hx)]

theorem percentDecode_plain {s : List Char} (hplus : '+' ∉ s) (hpct : '%' ∉ s) : percentDecode s = s := by
  have hbytes : ∀ b ∈ bytes s, b ≠ 0x2B ∧ b ≠ 0x25 := by
    intro b hb
    obtain ⟨c, hc, hbc⟩ := List.mem_flatMap.1 hb
    obtain ⟨k, hk⟩ := List.mem_iff_getElem?.1 hbc
    -- either byte would be a character of the text
    constructor
    · rintro rfl
      obtain ⟨-, hval⟩ := Utf8Text.eq_of_ascii_byte (by decide) hk
      exact hplus (Char.toNat_inj.1 (hval.trans rfl : c.toNat = '+'.toNat) ▸ hc)
    · rintro rfl
      obtain ⟨-, hval⟩ := Utf8Text.eq_of_ascii_byte (by decide) hk
      exact hpct (Char.toNat_inj.1 (hval.trans rfl : c.toNat = '%'.toNat) ▸ hc)
  rw [percentDecode, decodeBytes_plain hbytes, fromUtf8Lossy_bytes]

/-! ## The query of a signed URL -/

theorem splitOnce_append {sep : Char} {k : List Char} (h : sep ∉ k) (v : List Char) :
    splitOnce sep (k ++ sep :: v) = some (k, v) := by
  have hk : ∀ c ∈ k, (c != sep) = true := fun c hc => bne_iff_ne.2 fun heq => h (heq ▸ hc)
  rw [splitOnce, List.dropWhile_append_of_pos hk, List.takeWhile_append_of_pos hk]
  simp

theorem digit_or_minus {n : Int} {c : Char} (h : c ∈ n.repr.toList) : c = '-' ∨ c.isDigit = true := by
  rw [Int.repr_eq_if] at h
  split at h
  · exact .inr (List.all_eq_true.1 (digits_repr n.toNat).2.1 c h)
  · rcases List.mem_append.1 (String.toList_append ▸ h) with h | h
    · exact .inl (by simpa using h)
    · exact .inr (List.all_eq_true.1 (digits_repr (-n).toNat).2.1 c h)

theorem notMem_repr {c : Char} (hminus : c ≠ '-') (hdigit : c.isDigit = false) (n : Int) : c ∉ n.repr.toList := by
  intro h
  rcases digit_or_minus h with rfl | h
  · exact hminus rfl
  · rw [hdigit] at h
    cases h

theorem notMem_hexEncode {c : Char} (h : ∀ n : Fin 16, c ≠ Wire.hexDigit n) (bs : List UInt8) :
    c ∉ Wire.hexEncode bs := by
  intro hc
  obtain ⟨b, -, hb⟩ := List.mem_flatMap.1 hc
  have hlt := b.toNat_lt
  rcases List.mem_pair.1 hb with rfl | rfl
  · exact h ⟨b.toNat / 16, by omega⟩ rfl
  · exact h ⟨b.toNat % 16, by omega⟩ rfl

theorem amp_notMem_percentEncode (s : List Char) : '&' ∉ percentEncode s := by
  have hall : ∀ b, '&' ∉ encodeByte b := forall_byte (by decide +kernel)
  intro h
  obtain ⟨b, -, hb⟩ := List.mem_flatMap.1 h
  exact hall b hb

theorem insertPair_named (params : Params) {k v : List Char} (hk : k ≠ []) (heq : '=' ∉ k) (hplus : '+' ∉ k)
    (hpct : '%' ∉ k) : insertPair params (k ++ '=' :: v) = Function.update params k (some (percentDecode v)) := by
  simp [insertPair, splitOnce_append heq, hk, percentDecode_plain hplus hpct]

def signedQuery (exp : Int) (userId sig : List Char) : List Char :=
  "exp".toList ++ '=' :: exp.repr.toList ++ '&' :: ("user".toList ++ '=' :: percentEncode userId ++
    '&' :: ("sig".toList ++ '=' :: sig))

theorem url_eq (mac : Mac) (now : Timestamp) (path userId : List Char) (ttl : Int) (key : List UInt8) :
    (buildSignedUrl mac now path userId ttl key).1 = path ++ '?' :: signedQuery (expiry now ttl) userId
      (computeSig mac path userId (expiry now ttl) key) := by
  simp [buildSignedUrl, signedQuery]

theorem parseQuery_signedQuery (exp : Int) (userId : List Char) (bs : List UInt8) :
    let params := parseQuery (signedQuery exp userId (Wire.hexEncode bs))
    params "exp".toList = some exp.repr.toList ∧ params "user".toList = some userId ∧
      params "sig".toList = some (Wire.hexEncode bs) := by
  have hexp : '&' ∉ "exp".toList ++ '=' :: exp.repr.toList := by
    simpa using notMem_repr (by decide) (by decide) exp
  have huser : '&' ∉ "user".toList ++ '=' :: percentEncode userId := by
    simpa using amp_notMem_percentEncode userId
  have hsig : '&' ∉ "sig".toList ++ '=' :: Wire.hexEncode bs := by
    simpa using notMem_hexEncode (by decide) bs
  intro params
  have hparams : params = Function.update (Function.update (Function.update (fun _ => none)
      "exp".toList (some exp.repr.toList)) "user".toList (some userId)) "sig".toList (some (Wire.hexEncode bs)) := by
    simp only [params, parseQuery, signedQuery, List.splitOn_append_cons_self_of_not_mem hexp,
      List.splitOn_append_cons_self_of_not_mem huser, List.splitOn_eq_singleton hsig, List.foldl_cons, List.foldl_nil]
    rw [insertPair_named _ (by decide) (by decide) (by decide) (by decide),
      insertPair_named _ (by decide) (by decide) (by decide) (by decide),
      insertPair_named _ (by decide) (by decide) (by decide) (by decide), percentDecode_percentEncode,
      percentDecode_plain (notMem_repr (by decide) (by decide) exp) (notMem_repr (by decide) (by decide) exp),
      percentDecode_plain (notMem_hexEncode (by decide) bs) (notMem_hexEncode (by decide) bs)]
  rw [hparams]
  refine ⟨?_, ?_, Function.update_self _ _ _⟩
  · rw [Function.update_of_ne (by decide), Function.update_of_ne (by decide), Function.update_self]
  · rw [Function.update_of_ne (by decide), Function.update_self]

/-! ## The tag -/

theorem foldl_or_eq_zero : ∀ (l : List (UInt8 × UInt8)) (acc : UInt8),
    l.foldl (fun acc p => acc ||| (p.1 ^^^ p.2)) acc = 0 ↔ acc = 0 ∧ ∀ p ∈ l, p.1 = p.2
  | [], acc => by simp
  | p :: l, acc => by
    rw [List.foldl_cons, foldl_or_eq_zero l, UInt8.or_eq_zero_iff, UInt8.xor_eq_zero_iff, List.forall_mem_cons, and_assoc]

theorem forall_zip_iff : ∀ {a b : List UInt8}, a.length = b.length → ((∀ p ∈ a.zip b, p.1 = p.2) ↔ a = b)
  | [], [], _ => by simp
  | x :: a, y :: b, hlen => by
    rw [List.zip_cons_cons, List.forall_mem_cons, forall_zip_iff (Nat.succ.inj hlen), List.cons.injEq]

theorem ctEq_iff {a b : List UInt8} : ctEq a b = true ↔ a = b := by
  rw [ctEq]
  by_cases hlen : a.length = b.length
  · rw [if_neg (not_not.2 hlen), beq_iff_eq, foldl_or_eq_zero, forall_zip_iff hlen]
    exact and_iff_right rfl
  · rw [if_pos hlen]
    exact iff_of_false Bool.false_ne_true fun h => hlen (congrArg List.length h)

theorem required_eq_ok_iff {params : Params} {name : String} {v : List Char} :
    required params name = .ok v ↔ params name.toList = some v := by
  rw [required]
  cases params name.toList <;> simp

variable {claims : VerifiedDownloadClaims} {path query : List Char}

theorem verifySig_eq_ok_iff {mac : Mac} {now : Timestamp} {key : List UInt8} :
    verifySig mac now path query key = .ok claims ↔
      (∃ expStr, parseQuery query "exp".toList = some expStr ∧ parseI64 expStr = some claims.exp) ∧
      parseQuery query "user".toList = some claims.userId ∧
      parseQuery query "sig".toList = some (computeSig mac path claims.userId claims.exp key) ∧ now ≤ claims.exp := by
  constructor
  · intro h
    obtain ⟨expStr, hexp, h⟩ := bind_eq_ok.1 h
    obtain ⟨user, huser, h⟩ := bind_eq_ok.1 h
    obtain ⟨sigHex, hsig, h⟩ := bind_eq_ok.1 h
    rw [required_eq_ok_iff] at hexp huser hsig
    cases hparse : parseI64 expStr with
    | none => rw [hparse] at h; cases h
    | some exp =>
      simp only [hparse] at h
      split_ifs at h with hpast htag
      cases h
      rw [Bool.not_eq_true, Bool.not_eq_false', ctEq_iff] at htag
      exact ⟨⟨expStr, hexp, hparse⟩, huser, Utf8Text.bytes_inj htag ▸ hsig, not_lt.1 hpast⟩
  · rintro ⟨⟨expStr, hexp, hparse⟩, huser, hsig, hnow⟩
    refine bind_eq_ok.2 ⟨expStr, required_eq_ok_iff.2 hexp, bind_eq_ok.2 ⟨_, required_eq_ok_iff.2 huser,
      bind_eq_ok.2 ⟨_, required_eq_ok_iff.2 hsig, ?_⟩⟩⟩
    simp [hparse, not_lt.2 hnow, ctEq_iff.2 rfl]

/-! ## The signed bytes -/

def signedText (path userId : List Char) (exp : Int) : List Char := path ++ '\n' :: (userId ++ '\n' :: exp.repr.toList)

theorem message_eq (path userId : List Char) (exp : Int) :
    message path userId exp = bytes ("execlaw/download-url/v1\n".toList ++ signedText path userId exp) := by
  simp only [message, signedText, Utf8Text.bytes_append, Utf8Text.bytes_cons, List.append_assoc]
  rfl

theorem message_inj {path path' userId userId' : List Char} {exp exp' : Int} (hpath : '\n' ∉ path)
    (huser : '\n' ∉ userId) (hfit : fitsI64 exp = true) (hfit' : fitsI64 exp' = true)
    (h : message path' userId' exp' = message path userId exp) : path' = path ∧ userId' = userId ∧ exp' = exp := by
  have hexp : ∀ n : Int, '\n' ∉ n.repr.toList := notMem_repr (by decide) (by decide)
  rw [message_eq, message_eq] at h
  have htext : signedText path' userId' exp' = signedText path userId exp :=
    List.append_cancel_left (Utf8Text.bytes_inj h)
  have hcount := congrArg (List.count '\n') htext
  simp only [signedText, List.count_append, List.count_cons_self, List.count_eq_zero_of_not_mem hpath,
    List.count_eq_zero_of_not_mem huser, List.count_eq_zero_of_not_mem (hexp exp),
    List.count_eq_zero_of_not_mem (hexp exp')] at hcount
  obtain ⟨rfl, hrest⟩ := Wire.cut_unique '\n' path' path _ _
    (by rw [List.count_eq_zero_of_not_mem hpath]; omega) htext
  obtain ⟨rfl, hlast⟩ := Wire.cut_unique '\n' userId' userId _ _
    (by rw [List.count_eq_zero_of_not_mem huser]; omega) hrest
  -- either number is what the text parses to
  have hparse := parseI64_repr hfit'
  rw [hlast, parseI64_repr hfit] at hparse
  exact ⟨rfl, rfl, (Option.some.inj hparse).symm⟩

/-! ## Binding -/

structure Issued where
  path : List Char
  userId : List Char
  ttl : Int
  now : Timestamp

def Issued.exp (i : Issued) : Int := expiry i.now i.ttl

def Issued.signed (i : Issued) : List UInt8 := message i.path i.userId i.exp

def NoForgery (mac : Mac) (key : List UInt8) (issued : List Issued) (query : List Char) : Prop :=
  ∀ m, parseQuery query "sig".toList = some (Wire.hexEncode (mac key m).bytes) → m ∈ issued.map Issued.signed

theorem fitsI64_expiry (now : Timestamp) (ttl : Int) : fitsI64 (expiry now ttl) = true := by
  obtain ⟨n, hlow, hhigh⟩ := now
  refine decide_eq_true ?_
  show -2 ^ 63 ≤ n + max 1 (min ttl (60 * 60)) ∧ n + max 1 (min ttl (60 * 60)) < 2 ^ 63
  omega

theorem verifySig_signedQuery (mac : Mac) (now now' : Timestamp) (path userId : List Char) (ttl : Int)
    (key : List UInt8) :
    verifySig mac now' path
        (signedQuery (expiry now ttl) userId (computeSig mac path userId (expiry now ttl) key)) key =
      if now' ≤ expiry now ttl then .ok ⟨userId, expiry now ttl⟩ else .error .expired := by
  obtain ⟨hexp, huser, hsig⟩ := parseQuery_signedQuery (expiry now ttl) userId
    (mac key (message path userId (expiry now ttl))).bytes
  split_ifs with hnow
  · exact verifySig_eq_ok_iff.2 ⟨⟨_, hexp, parseI64_repr (fitsI64_expiry now ttl)⟩, huser, hsig, hnow⟩
  · simp only [verifySig, required, computeSig, hexp, huser, hsig, bind, Except.bind,
      parseI64_repr (fitsI64_expiry now ttl)]
    exact if_pos (not_le.1 hnow)

theorem issued_of_verifySig {mac : Mac} {key : List UInt8} {issued : List Issued} {now : Timestamp}
    (hpath : '\n' ∉ path) (huser : '\n' ∉ claims.userId) (hideal : NoForgery mac key issued query)
    (h : verifySig mac now path query key = .ok claims) :
    (∃ i ∈ issued, i.path = path ∧ i.userId = claims.userId ∧ i.exp = claims.exp) ∧ now ≤ claims.exp := by
  obtain ⟨⟨expStr, -, hparse⟩, -, hsig, hnow⟩ := verifySig_eq_ok_iff.1 h
  obtain ⟨i, hi, hm⟩ := List.mem_map.1 (hideal _ hsig)
  exact ⟨⟨i, hi, message_inj hpath huser (fitsI64_of_parseI64 hparse) (fitsI64_expiry i.now i.ttl) hm⟩, hnow⟩

/-- **A signed URL binds path, user and expiry**: escapes come back; the URL, cut at its `?`, is accepted for its user
and expiry until then and refused after; and no query is accepted for anything but a path, a user and an expiry that a
URL was issued for. -/
theorem signed_urls_bind (mac : Mac) (key : List UInt8) :
    (∀ userId, percentDecode (percentEncode userId) = userId) ∧
    (∀ path userId ttl now, '?' ∉ path → ∃ query,
      splitOnce '?' (buildSignedUrl mac now path userId ttl key).1 = some (path, query) ∧
      ∀ now' : Timestamp, verifySig mac now' path query key =
        if now' ≤ (buildSignedUrl mac now path userId ttl key).2
        then .ok ⟨userId, (buildSignedUrl mac now path userId ttl key).2⟩ else .error .expired) ∧
    ∀ issued path query now claims, '\n' ∉ path → '\n' ∉ claims.userId → NoForgery mac key issued query →
      verifySig mac now path query key = .ok claims →
      (∃ i ∈ issued, i.path = path ∧ i.userId = claims.userId ∧ i.exp = claims.exp) ∧ now ≤ claims.exp := by
  refine ⟨percentDecode_percentEncode, ?_, ?_⟩
  · intro path userId ttl now hpath
    refine ⟨_, ?_, fun now' => verifySig_signedQuery mac now now' path userId ttl key⟩
    rw [url_eq]
    exact splitOnce_append hpath _
  · intro issued path query now claims hpath huser hideal h
    exact issued_of_verifySig hpath huser hideal h

/-- The tag of `/x` for `u v` until 60 under the key of the unit tests, and no other. -/
def oneTag : Mac := fun _ m =>
  if m = message "/x".toList "u v".toList 60 then
    ⟨[0x4f, 0xa6, 0x86, 0x6d, 0x49, 0x13, 0x9a, 0x4b, 0x0e, 0xc6, 0xf1, 0x55, 0x23, 0x48, 0x0a, 0xdf,
      0xd0, 0x6a, 0xbf, 0xb5, 0x80, 0xaf, 0x46, 0x9f, 0x9c, 0x07, 0xd7, 0x4d, 0xe8, 0x85, 0x77, 0x90], rfl⟩
  else ⟨List.replicate 32 0, Tag.length_zeros⟩

def testKey : List UInt8 := bytes "test-download-hmac-key-32-bytes-x".toList

def xUrl : Issued := ⟨"/x".toList, "u v".toList, 60, ⟨0, by decide⟩⟩

def reordered : List Char :=
  "sig=4fa6866d49139a4b0ec6f15523480adfd06abfb580af469f9c07d74de8857790&user=u+v&exp=60&".toList

theorem reordered_sig : parseQuery reordered "sig".toList =
    some "4fa6866d49139a4b0ec6f15523480adfd06abfb580af469f9c07d74de8857790".toList := by decide +kernel

theorem reordered_noForgery : NoForgery oneTag testKey [xUrl] reordered := by
  intro m hsig
  rw [reordered_sig] at hsig
  have hm : m = message "/x".toList "u v".toList 60 := by
    by_contra hne
    simp only [oneTag, hne, if_false] at hsig
    revert hsig
    decide +kernel
  exact List.mem_singleton.2 hm

theorem reordered_accepted :
    verifySig oneTag ⟨60, by decide⟩ xUrl.path reordered testKey = .ok ⟨"u v".toList, 60⟩ :=
  verifySig_eq_ok_iff.2 ⟨⟨"60".toList, by decide +kernel, by decide +kernel⟩, by decide +kernel, by decide +kernel,
    by decide⟩

/-- It is accepted, and it was issued. -/
theorem reordered_was_issued : ∃ i ∈ [xUrl], i.path = xUrl.path ∧ i.userId = "u v".toList ∧ i.exp = 60 :=
  ((signed_urls_bind oneTag testKey).2.2 [xUrl] xUrl.path reordered ⟨60, by decide⟩ ⟨"u v".toList, 60⟩
    (by decide) (by decide) reordered_noForgery reordered_accepted).1

end Execlaw.DownloadUrls
