import Birdtest.Base.IpAddr

namespace Birdtest.Clientip

open Birdtest.Base.Net

/-- `u8::is_ascii_whitespace` -/
def isBlank (b : UInt8) : Bool := b = 0x20 ∨ b = 0x09 ∨ b = 0x0A ∨ b = 0x0C ∨ b = 0x0D

def trimAscii (t : Bytes) : Bytes := ((t.dropWhile isBlank).reverse.dropWhile isBlank).reverse

def comma : UInt8 := 0x2C

def entries (headers : List Bytes) : List Bytes :=
  ((headers.flatMap (·.splitOn comma)).map trimAscii).filter (· ≠ [])

def resolve (headers : List Bytes) (peer : Option IpAddr) (trustedHops : ℕ) : Option IpAddr :=
  if trustedHops = 0 then peer
  else
    let entries := entries headers
    if entries.length < trustedHops then peer
    -- an entry that is not UTF-8 holds a byte that no address does
    else (entries[entries.length - trustedHops]?.bind parse).or peer

def Writes (a : IpAddr) (entry : Bytes) : Prop :=
  ∃ before text after, entry = before ++ (text ++ after) ∧ before.all isBlank = true ∧
    after.all isBlank = true ∧ parse text = some a

/-- What proxies leave of the header's values that a client sent: each writes the address it was
connected from after the last value and a comma, or as a value of its own. -/
inductive Forwarded (client : List Bytes) : List IpAddr → List Bytes → Prop
  | received : Forwarded client [] client
  | listed {addresses : List IpAddr} {headers : List Bytes} {last entry : Bytes} {a : IpAddr}
      (h : Forwarded client addresses (headers ++ [last])) (hentry : Writes a entry) :
      Forwarded client (addresses ++ [a]) (headers ++ [last ++ comma :: entry])
  | added {addresses : List IpAddr} {headers : List Bytes} {entry : Bytes} {a : IpAddr}
      (h : Forwarded client addresses headers) (hentry : Writes a entry) :
      Forwarded client (addresses ++ [a]) (headers ++ [entry])

section Entries

variable {t before after entry last : Bytes} {headers client : List Bytes} {a : IpAddr} {b : UInt8}

theorem of_isAddressByte (h : isAddressByte b = true) : b ≠ comma ∧ isBlank b = false := by
  have hall : ∀ b : Fin 256, isAddressByte (.ofNat b) = true →
      UInt8.ofNat b ≠ comma ∧ isBlank (.ofNat b) = false := by decide +kernel
  have hb := hall ⟨b.toNat, b.toNat_lt⟩
  rw [UInt8.ofNat_toNat] at hb
  exact hb h

theorem not_isBlank_of_parse (h : parse t = some a) : ∀ b ∈ t, ¬isBlank b = true := by
  intro b hb
  rw [(of_isAddressByte (isAddressByte_of_parse h b hb)).2]
  exact Bool.false_ne_true

theorem ne_nil_of_parse (h : parse t = some a) : t ≠ [] := by
  rintro rfl
  cases parse_nil.symm.trans h

theorem dropWhile_eq_of_forall {p : UInt8 → Bool} (hne : t ≠ []) (h : ∀ b ∈ t, ¬p b = true)
    (hblank : ∀ b ∈ before, p b = true) (after : Bytes) :
    (before ++ (t ++ after)).dropWhile p = t ++ after := by
  rw [List.dropWhile_append_of_pos hblank]
  obtain ⟨b, rest, rfl⟩ := List.exists_cons_of_ne_nil hne
  rw [List.cons_append, List.dropWhile_cons_of_neg (h b List.mem_cons_self)]

theorem trimAscii_of_parse (h : parse t = some a) (hbefore : before.all isBlank = true)
    (hafter : after.all isBlank = true) : trimAscii (before ++ (t ++ after)) = t := by
  have hne := ne_nil_of_parse h
  have hblank := not_isBlank_of_parse h
  have hreverse : (t ++ after).reverse.dropWhile isBlank = t.reverse := by
    have hdrop := @dropWhile_eq_of_forall t.reverse after.reverse isBlank
      (List.reverse_ne_nil_iff.2 hne) (fun b hb ↦ hblank b (List.mem_reverse.1 hb))
      (fun b hb ↦ List.all_eq_true.1 hafter b (List.mem_reverse.1 hb)) []
    simpa using hdrop
  rw [trimAscii, dropWhile_eq_of_forall hne hblank (List.all_eq_true.1 hbefore), hreverse,
    List.reverse_reverse]

theorem comma_not_mem (h : Writes a entry) : comma ∉ entry := by
  obtain ⟨before, text, after, rfl, hbefore, hafter, hparse⟩ := h
  have hblank : isBlank comma = false := by decide
  intro hmem
  rcases List.mem_append.1 hmem with hmem | hmem
  · exact absurd (List.all_eq_true.1 hbefore _ hmem) (by rw [hblank]; nofun)
  · rcases List.mem_append.1 hmem with hmem | hmem
    · exact (of_isAddressByte (isAddressByte_of_parse hparse _ hmem)).1 rfl
    · exact absurd (List.all_eq_true.1 hafter _ hmem) (by rw [hblank]; nofun)

theorem entries_append (headers headers' : List Bytes) :
    entries (headers ++ headers') = entries headers ++ entries headers' := by
  rw [entries, List.flatMap_append, List.map_append, List.filter_append]
  rfl

theorem entries_listed (last entry : Bytes) :
    entries [last ++ comma :: entry] = entries [last] ++ entries [entry] := by
  rw [← entries_append, entries, entries, List.flatMap_singleton, List.splitOn_append_cons_self,
    List.singleton_append, List.flatMap_cons, List.flatMap_singleton]

theorem entries_of_writes (h : Writes a entry) : ∃ text, entries [entry] = [text] ∧
    parse text = some a := by
  have hcomma := comma_not_mem h
  obtain ⟨before, text, after, rfl, hbefore, hafter, hparse⟩ := h
  refine ⟨text, ?_, hparse⟩
  rw [entries, List.flatMap_singleton, List.splitOn_eq_singleton hcomma, List.map_singleton,
    trimAscii_of_parse hparse hbefore hafter,
    List.filter_cons_of_pos (by simpa using ne_nil_of_parse hparse),
    List.filter_nil]

/-- Whatever the client sent, the entries end with those of the proxies. -/
theorem Forwarded.entries_eq {addresses : List IpAddr} (h : Forwarded client addresses headers) :
    ∃ texts, entries headers = entries client ++ texts ∧ texts.map parse = addresses.map some := by
  induction h with
  | received => exact ⟨[], (List.append_nil _).symm, rfl⟩
  | listed h hentry ih =>
    obtain ⟨texts, heq, hparse⟩ := ih
    obtain ⟨text, hentry, htext⟩ := entries_of_writes hentry
    refine ⟨texts ++ [text], ?_, by simp [hparse, htext]⟩
    rw [entries_append, entries_listed, ← List.append_assoc, ← entries_append, heq, hentry,
      List.append_assoc]
  | added h hentry ih =>
    obtain ⟨texts, heq, hparse⟩ := ih
    obtain ⟨text, hentry, htext⟩ := entries_of_writes hentry
    refine ⟨texts ++ [text], ?_, by simp [hparse, htext]⟩
    rw [entries_append, heq, hentry, List.append_assoc]

end Entries

/-- A client's address is the one that the first of the trusted proxies was connected from, whatever
the client sent; where none are trusted, it is the peer. -/
theorem resolve_forwarded :
    (∀ {client client' headers headers' : List Bytes} {a : IpAddr} {addresses : List IpAddr}
      (peer peer' : Option IpAddr), Forwarded client (a :: addresses) headers →
      Forwarded client' (a :: addresses) headers' →
      resolve headers peer (addresses.length + 1) = some a ∧
        resolve headers' peer' (addresses.length + 1) = resolve headers peer
        (addresses.length + 1)) ∧
    ∀ headers peer, resolve headers peer 0 = peer := by
  have hfirst {client headers : List Bytes} {a : IpAddr} {addresses : List IpAddr}
      (peer : Option IpAddr)
      (h : Forwarded client (a :: addresses) headers) :
      resolve headers peer (addresses.length + 1) = some a := by
    obtain ⟨texts, heq, hparse⟩ := h.entries_eq
    obtain ⟨text, texts, rfl⟩ : ∃ text rest, texts = text :: rest := by
      cases texts with
      | nil => cases hparse
      | cons text rest => exact ⟨text, rest, rfl⟩
    rw [List.map_cons, List.map_cons, List.cons.injEq] at hparse
    have hlength : texts.length = addresses.length := by simpa using congrArg List.length hparse.2
    have hindex : (entries headers).length - (addresses.length + 1) = (entries client).length := by
      rw [heq, List.length_append, List.length_cons, hlength, Nat.add_sub_cancel_right]
    have hnot : ¬(entries headers).length < addresses.length + 1 := by
      rw [heq, List.length_append, List.length_cons]
      omega
    rw [resolve, if_neg (Nat.succ_ne_zero _)]
    simp only [if_neg hnot, hindex]
    rw [heq, List.getElem?_append_right (Nat.le_refl _), Nat.sub_self, List.getElem?_cons_zero,
      Option.bind_some, hparse.1, Option.some_or]
  refine ⟨fun peer peer' h h' ↦ ⟨hfirst peer h, ?_⟩, fun headers peer ↦ if_pos rfl⟩
  rw [hfirst peer h, hfirst peer' h']

def ascii (text : String) : Bytes := text.toList.map fun c ↦ .ofNat c.toNat

/-- Two proxies, one of them behind what a client made up. -/
theorem resolve_forwarded_two :
    resolve [ascii "6.6.6.6,,\tx, 203.0.113.7", ascii "10.0.1.5"] none 2 =
    some (.v4 [203, 0, 113, 7]) ∧
    resolve [ascii "203.0.113.7", ascii "10.0.1.5"] none 2 = some (.v4 [203, 0, 113, 7]) := by
  have houter (blanks : String) (h : (ascii blanks).all isBlank = true) :
      Writes (.v4 [203, 0, 113, 7]) (ascii blanks ++ (ascii "203.0.113.7" ++ [])) :=
    ⟨ascii blanks, ascii "203.0.113.7", [], rfl, h, rfl, by decide⟩
  have hinner : Writes (.v4 [10, 0, 1, 5]) (ascii "10.0.1.5") :=
    ⟨[], ascii "10.0.1.5", [], by simp, rfl, rfl, by decide⟩
  have hlisted : Forwarded [ascii "6.6.6.6,,\tx"] _ _ :=
    .added (@Forwarded.listed _ _ [] _ _ _ .received (houter " " (by decide))) hinner
  have hadded : Forwarded [] _ _ := .added (.added .received (houter "" (by decide))) hinner
  obtain ⟨heq, hsame⟩ := resolve_forwarded.1 none none hlisted hadded
  exact ⟨heq, hsame.trans heq⟩

end Birdtest.Clientip
