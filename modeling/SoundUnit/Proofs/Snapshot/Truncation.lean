import SoundUnit.Proofs.Snapshot.Codec
import SoundUnit.Proofs.Snapshot.Length

namespace SoundUnit

theorem ne_error_of_bind {ε α β : Type} {x : Except ε α} {k : α → Except ε β} {e : ε}
    (h : x >>= k ≠ .error e) : x ≠ .error e := by
  rintro rfl
  exact h rfl

namespace Format

variable {α β : Type} {f : Format α} {g : Format β}

/-- The data ends too early, or it makes no difference what follows. -/
def Streaming (read : List UInt8 → Except SnapshotFault (α × List UInt8)) : Prop :=
  ∀ bytes more, read bytes = .error .endOfData ∨
    read (bytes ++ more) = (read bytes).map fun p ↦ (p.1, p.2 ++ more)

namespace Streaming

theorem ok (a : α) : Streaming fun bytes ↦ .ok (a, bytes) := by
  intro bytes more
  exact .inr rfl

theorem error (fault : SnapshotFault) :
    Streaming (fun _ ↦ .error fault : List UInt8 → Except SnapshotFault (α × List UInt8)) := by
  intro bytes more
  exact .inr rfl

theorem byte : Streaming Format.byte.read := by
  intro bytes more
  cases bytes with
  | nil => exact .inl rfl
  | cons b bytes => exact .inr rfl

theorem bind {read : List UInt8 → Except SnapshotFault (α × List UInt8)}
    {k : α → List UInt8 → Except SnapshotFault (β × List UInt8)} (hr : Streaming read)
    (hk : ∀ a, Streaming (k a)) : Streaming fun bytes ↦ read bytes >>= fun p ↦ k p.1 p.2 := by
  intro bytes more
  have hb := hr bytes more
  dsimp only
  generalize read bytes = r at hb ⊢
  rcases hb with rfl | hb
  · exact .inl rfl
  · rw [hb]
    cases r with
    | error fault => exact .inr rfl
    | ok p => exact hk p.1 p.2 more

theorem ite {p : Prop} [Decidable p] {read other : List UInt8 → Except SnapshotFault (α × List UInt8)}
    (hr : Streaming read) (ho : Streaming other) : Streaming fun bytes ↦ if p then read bytes else other bytes := by
  split
  · exact hr
  · exact ho

theorem readNat (k : Nat) : Streaming (Format.readNat k) := by
  induction k with
  | zero => exact ok 0
  | succ k ih =>
    have he : Format.readNat (k + 1) = fun bytes ↦ Format.byte.read bytes >>= fun p ↦
        Format.readNat k p.2 >>= fun q ↦ .ok (p.1.toNat + 256 * q.1, q.2) := by
      funext bytes
      cases bytes <;> rfl
    rw [he]
    exact byte.bind fun b ↦ ih.bind fun n ↦ ok (b.toNat + 256 * n)

theorem map {decode : α → β} {encode : β → α} (hf : Streaming f.read) : Streaming (f.map decode encode).read :=
  hf.bind fun a ↦ ok (decode a)

theorem filterMap {decode : α → Except SnapshotFault β} {encode : β → α} (hf : Streaming f.read) :
    Streaming (f.filterMap decode encode).read := by
  refine hf.bind (k := fun a rest ↦ decode a >>= fun b ↦ .ok (b, rest)) fun a ↦ ?_
  cases decode a with
  | error fault => exact error fault
  | ok b => exact ok b

theorem seq (hf : Streaming f.read) (hg : Streaming g.read) : Streaming (f.seq g).read :=
  hf.bind fun a ↦ hg.bind fun b ↦ ok (a, b)

theorem readMany (hf : Streaming f.read) (n : Nat) (items : Array α) : Streaming (Format.readMany f n items) := by
  induction n generalizing items with
  | zero => exact ok items
  | succ n ih => exact hf.bind fun a ↦ ih (items.push a)

theorem array (hf : Streaming f.read) : Streaming f.array.read :=
  (readNat 8).bind fun n ↦ hf.readMany n #[]

theorem vector (hf : Streaming f.read) (n : Nat) : Streaming (f.vector n).read := by
  intro bytes more
  have hm := hf.readMany n #[] bytes more
  simp only [Format.vector]
  split <;> split <;> simp_all [Except.map]

theorem bytes : Streaming Format.bytes.read := by
  refine (readNat 8).bind (k := fun n rest ↦ if (rest.take n).length = n then
    .ok ((rest.take n).toByteArray, rest.drop n) else .error .endOfData) fun n rest more ↦ ?_
  by_cases h : (rest.take n).length = n
  · have hn : n ≤ rest.length := by
      rw [← h]
      exact List.length_take_le' n rest
    right
    simp only [List.take_append_of_le_length hn, List.drop_append_of_le_length hn, if_pos h]
    rfl
  · exact .inl (if_neg h)

theorem option (hf : Streaming f.read) : Streaming f.option.read := by
  have he : f.option.read = fun bytes ↦ Format.byte.read bytes >>= fun p ↦
      if p.1 = 0 then .ok (none, p.2)
      else if p.1 = 1 then f.read p.2 >>= fun q ↦ .ok (some q.1, q.2)
      else .error (.badTag p.1.toNat) := by
    funext bytes
    cases bytes <;> rfl
  rw [he]
  refine byte.bind (k := fun tag rest ↦ if tag = 0 then .ok (none, rest)
    else if tag = 1 then f.read rest >>= fun q ↦ .ok (some q.1, q.2)
    else .error (.badTag tag.toNat)) fun tag ↦ ?_
  apply ite (ok none)
  apply ite
  · exact hf.bind fun a ↦ ok (some a)
  · exact error _

theorem contents : Streaming SnapshotContents.format.read := by
  repeat' first
    | apply Streaming.seq
    | apply Streaming.byte
    | apply readNat
    | apply Streaming.map
    | apply filterMap
    | apply Streaming.vector
    | apply Streaming.array
    | apply Streaming.option
    | apply Streaming.bytes

end Streaming

end Format

namespace Snapshot

theorem readHeader_eq (bytes : List UInt8) :
    readHeader bytes = Format.readNat 2 (bytes.drop 4) >>= fun p ↦
      if bytes.take 4 ≠ magic then .error .notSnapshot
      else if p.1 ≠ version then .error (.version p.1)
      else .ok p.2 :=
  rfl

theorem decode_eq (bytes : List UInt8) :
    decode bytes =
      readHeader bytes >>= fun rest ↦ SnapshotContents.format.read rest >>= fun p ↦ p.1.toMachine :=
  rfl

theorem readHeader_append {bytes : List UInt8} (h : readHeader bytes ≠ .error .endOfData) (more : List UInt8) :
    readHeader (bytes ++ more) = (readHeader bytes).map (· ++ more) := by
  have hlen : 4 ≤ bytes.length := by
    by_contra hlt
    apply h
    rw [readHeader_eq, List.drop_eq_nil_of_le (Nat.le_of_not_ge hlt)]
    rfl
  rw [readHeader_eq] at h ⊢
  rw [readHeader_eq, List.take_append_of_le_length hlen, List.drop_append_of_le_length hlen,
    (Format.Streaming.readNat 2 (bytes.drop 4) more).resolve_left (ne_error_of_bind h)]
  cases Format.readNat 2 (bytes.drop 4) with
  | error fault => rfl
  | ok p =>
    simp only [Except.map, bind, Except.bind]
    split
    · rfl
    · split <;> rfl

theorem decode_append {bytes : List UInt8} (h : decode bytes ≠ .error .endOfData) (more : List UInt8) :
    decode (bytes ++ more) = decode bytes := by
  rw [decode_eq] at h ⊢
  rw [decode_eq, readHeader_append (ne_error_of_bind h)]
  cases hr : readHeader bytes with
  | error fault => rfl
  | ok rest =>
    rw [hr] at h
    have hc : SnapshotContents.format.read rest ≠ .error .endOfData := ne_error_of_bind h
    change SnapshotContents.format.read (rest ++ more) >>= _ = SnapshotContents.format.read rest >>= _
    rw [(Format.Streaming.contents rest more).resolve_left hc]
    cases SnapshotContents.format.read rest with
    | error fault => rfl
    | ok p => rfl

end Snapshot

namespace Machine

theorem load_append {bytes : List UInt8} (h : load bytes ≠ .error (.snapshot .endOfData)) (more : List UInt8) :
    load (bytes ++ more) = load bytes := by
  have hd : Snapshot.decode bytes ≠ .error .endOfData := by
    intro hd
    apply h
    rw [load, hd]
    rfl
  rw [load, Snapshot.decode_append hd, load]

/-- The answer to some bytes is the answer to all longer data too, unless it is that the data ends too early. That is
the answer to every proper beginning of a saved state, and to the whole of it the answer is the machine. -/
theorem load_prefix_stable :
    (∀ bytes : List UInt8, load bytes ≠ .error (.snapshot .endOfData) →
      ∀ more : List UInt8, load (bytes ++ more) = load bytes) ∧
    ∀ m : Machine, m.Valid → m.Representable → load m.save = .ok m ∧
      ∀ front : List UInt8, front <+: m.save → front ≠ m.save → load front = .error (.snapshot .endOfData) := by
  refine ⟨fun bytes h more ↦ load_append h more, fun m hv hr ↦ ?_⟩
  have hl := hv.load_save hr
  refine ⟨hl, fun front hp hne ↦ ?_⟩
  by_contra h
  obtain ⟨more, he⟩ := hp
  have hf : load front = .ok m := by
    rw [← load_append h more, he, hl]
  have hw : m.save <+: front := (Snapshot.decode_eq_ok.1 (load_eq_ok.1 hf)).2.2
  apply hne
  rw [← he]
  exact (List.prefix_append front more).eq_of_length_le (he ▸ hw.length_le)

theorem load_prefix_stable_initial :
    load ([0x53, 0x50, 0x43, 0x37, 2, 0] ++ initial.save) = .error (.snapshot (.version 2)) ∧
      load (initial.save.take 66342) = .error (.snapshot .endOfData) := by
  have hv : initial.Valid := ⟨Bus.powerOn_timersValid, Dsp.initial_valid, by decide⟩
  have hr : initial.Representable := hv.representable (by decide) (by decide) fun _ h ↦ (nomatch h)
  have hlen : initial.save.length = 66343 := Snapshot.length_encode initial
  obtain ⟨happend, htruncated⟩ := load_prefix_stable
  constructor
  · have h : load [0x53, 0x50, 0x43, 0x37, 2, 0] = .error (.snapshot (.version 2)) := rfl
    rw [happend _ (by rw [h]; simp), h]
  · apply (htruncated initial hv hr).2 _ (List.take_prefix _ _)
    intro he
    have hle := List.length_take_le 66342 initial.save
    rw [he, hlen] at hle
    omega

end Machine

end SoundUnit
