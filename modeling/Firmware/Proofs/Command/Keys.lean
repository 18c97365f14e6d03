import Firmware.Crypto.RsaSearch
import Firmware.Proofs.Command.Workspace
import Firmware.Proofs.Crypto.Primality
import Firmware.Proofs.Key.PrivateKey

/-!
# Saved keys load again

`parse_of_saved` : whatever key the program comes by, from a file or by generating it, the text that
it saves is loaded as the same key, with the passphrase that it was saved under and no other
question asked.  A passphrase may be typed, stand in a variable or stand in a file.

`signingKey_of_generateKey` : so a command finds the key that was generated into a file.  A
passphrase for a new key is asked for twice, and only the first of two equal answers is needed to
load it.

The search for an RSA key is not part of the program; `Obtained` asks of it only what it promises,
that the keys it yields are valid, and the search that the program comes with keeps this
(`isValid_of_yields_search`).
-/

namespace Firmware

/-! ## The search for a key -/

namespace Crypto.Rsa

theorem isValid_of_ofPrimes? {p q : Nat} {key : PrivateKey} (h : ofPrimes? p q = some key) :
    key.isValid = true := by
  obtain ⟨secret, -, h⟩ := Option.bind_eq_some_iff.mp h
  dsimp only at h
  split at h
  · rename_i hkey
    obtain rfl := Option.some.inj h
    exact hkey.2
  · cases h

theorem isValid_of_yields_search {bits : Nat} {s s' : RandomSource} {key : PrivateKey}
    (h : Yields (search bits) s key s') : key.isValid = true := by
  obtain ⟨p, _, -, h⟩ := yields_bind.mp h
  obtain ⟨q, _, -, h⟩ := yields_bind.mp h
  cases hkey : ofPrimes? p q with
  | none =>
      rw [hkey] at h
      exact absurd h not_yields_throw
  | some key' =>
      rw [hkey] at h
      obtain ⟨rfl, -⟩ := yields_pure.mp h
      exact isValid_of_ofPrimes? hkey

end Crypto.Rsa

namespace Command

open Key (SigningKey Passphrase)

/-! ## Loading what was saved -/

/-- The keys that the program comes by. -/
inductive Obtained (k : SigningKey) : Prop
  | loaded {data : Bytes} {source : Passphrase} : SigningKey.parse data source = .ok k → Obtained k
  | generated {newRsa : Nat → Random Unit Crypto.Rsa.PrivateKey} {draws : Nat} {kind : KeyKind}
      {s s' : RandomSource} :
      (∀ bits s key s', Yields (newRsa bits) s key s' → key.isValid = true) →
      Yields (kind.generateWith newRsa draws) s k s' → Obtained k

variable {k : SigningKey} {w w' : Workspace}

theorem Obtained.wellFormed (h : Obtained k) : k.WellFormed := by
  cases h with
  | loaded hload => exact Key.wellFormed_of_parseKey hload
  | @generated newRsa draws kind s s' hnew hgenerate =>
      cases kind with
      | rsa2048 =>
          obtain ⟨key, hkey, rfl⟩ := yields_map.mp hgenerate
          exact hnew _ _ _ _ (Random.yields_mapError.mp hkey)
      | rsa3072 =>
          obtain ⟨key, hkey, rfl⟩ := yields_map.mp hgenerate
          exact hnew _ _ _ _ (Random.yields_mapError.mp hkey)
      | ec curve => exact Key.wellFormed_of_yields_drawScalar hgenerate
      | ed25519 => exact Key.wellFormed_of_yields_generateEd25519 hgenerate

/-- A key that the program saved is loaded again, with the passphrase that it was saved under,
wherever that comes from.  A command that finds the text in a file has the key, too. -/
theorem parse_of_saved (h : Obtained k) {passphrase text : String} {s s' : RandomSource}
    (hsaved : Yields (k.toPem passphrase) s text s') :
    (∀ source : Passphrase, (passphrase ≠ "" → source.acquire = .ok passphrase) →
      SigningKey.parse (Bytes.ofText text) source = .ok k) ∧
    ∀ (w : Workspace) (option : PassphraseOption) (path : String),
      w.load? path = some (Bytes.ofText text) →
      (passphrase ≠ "" → (w.passphrase path option).acquire = .ok passphrase) →
      Yields (signingKey option path : InMemory SigningKey) w k w := by
  have hparse (source : Passphrase) (hsource : passphrase ≠ "" → source.acquire = .ok passphrase) :=
    Key.parse_of_yields_toPem h.wellFormed hsaved hsource
  refine ⟨hparse, fun w option path hload hsource => ?_⟩
  exact yields_signingKey.mpr ⟨⟨_, hload, hparse _ hsource⟩, rfl⟩

namespace Saved

open Crypto.Rsa (primeKey)

/-- A search for primes that always finds the same ones. -/
def newRsa : Nat → Random Unit Crypto.Rsa.PrivateKey := fun _ => pure primeKey

theorem isValid_newRsa (bits : Nat) (s : RandomSource) (key : Crypto.Rsa.PrivateKey)
    (s' : RandomSource) (h : Yields (newRsa bits) s key s') : key.isValid = true := by
  obtain ⟨rfl, -⟩ := yields_pure.mp h
  exact Crypto.Rsa.hasPrimes_primeKey.isValid

theorem obtained : Obtained (.rsa primeKey) :=
  @Obtained.generated _ newRsa Key.maxDraws .rsa2048 (.cycle [42]) (.cycle [42]) isValid_newRsa rfl

/-- The structure for the key. -/
def file : Bytes := ((SigningKey.rsa primeKey).toPkcs8.toOption).getD []

set_option maxRecDepth 100000 in
theorem toPkcs8_eq : (SigningKey.rsa primeKey).toPkcs8 = .ok file := by decide +kernel

set_option maxRecDepth 100000 in
theorem length_file : file.length + 145 ≤ Der.maxSize := by decide +kernel

/-- A directory with one file, and a terminal at which the passphrase is typed. -/
def workspace (data : Bytes) : Workspace where
  files := [(["key"], data)]
  terminal := fun _ => .typed "secret"
  source := .cycle [0]

theorem load?_key (data : Bytes) : (workspace data).load? "key" = some data :=
  IsFileName.load?_eq {}

end Saved

open Saved in
open Crypto.Rsa (primeKey) in
/-- A generated RSA key is saved under a passphrase.  It is loaded with the value of a variable, and
from a file when the passphrase is typed. -/
theorem parse_of_saved_encrypted :
    ∃ text s',
      (Obtained (.rsa primeKey) ∧
        Yields ((SigningKey.rsa primeKey).toPem "secret") (.cycle [42]) text s') ∧
      SigningKey.parse (Bytes.ofText text) (.variable "PASS" (some "secret")) =
        .ok (.rsa primeKey) ∧
      Yields (signingKey .prompt "key" : InMemory SigningKey) (workspace (Bytes.ofText text))
        (.rsa primeKey) (workspace (Bytes.ofText text)) := by
  obtain ⟨text, s', hsaved⟩ := Key.exists_yields_toPem toPkcs8_eq length_file "secret" (.cycle [42])
  obtain ⟨hparse, hcommand⟩ := parse_of_saved obtained hsaved
  exact ⟨text, s', ⟨obtained, hsaved⟩, hparse _ fun _ => rfl,
    hcommand _ .prompt "key" (load?_key _) fun _ => rfl⟩

/-! ## Loading what was generated -/

theorem yields_newRsa {search : Nat → Random Unit Crypto.Rsa.PrivateKey} :
    Yields (liftM (Host.newRsa : StateM Workspace _) : InMemory _) w search w' ↔
      w.newRsa = search ∧ w = w' := by
  rw [yields_liftM]
  exact Prod.mk.injEq _ _ _ _ ▸ Iff.rfl

theorem yields_draw {ε α : Type} [HasTexts ε] {what : String} {r : Random ε α} {a : α} :
    Yields (draw what r : InMemory α) w a w' ↔
      ∃ source, Yields r w.source a source ∧ { w with source } = w' := by
  have hrandom : (Host.random r : StateM Workspace (Except ε α)) w =
      ((r w.source).1, { w with source := (r w.source).2 }) := rfl
  simp only [draw, yields_bind, yields_liftM, hrandom, yields_attempt]
  constructor
  · rintro ⟨result, w₁, hrun, rfl, rfl⟩
    obtain ⟨hresult, hsource⟩ := Prod.mk.inj hrun
    exact ⟨(r w.source).2, Prod.ext hresult rfl, hsource⟩
  · rintro ⟨source, h, rfl⟩
    have hrun : r w.source = (.ok a, source) := h
    rw [hrun]
    exact ⟨.ok a, { w with source }, rfl, rfl, rfl⟩

theorem yields_status {line : String} {u : Unit} :
    Yields (status line : InMemory Unit) w u w' ↔
      { w with printed := ("\x1b[1m[*] " ++ line ++ "\x1b[0m\n") :: w.printed } = w' :=
  ⟨fun h => congrArg Prod.snd h, fun h => Prod.ext rfl h⟩

/-- A passphrase that was confirmed is the one that was typed first. -/
theorem acquire_of_confirmed {passphrase passphrase' : Passphrase} {text : String}
    (h : Yields (confirmed passphrase : InMemory Passphrase) w passphrase' w')
    (hacquire : passphrase'.acquire = .ok text) : passphrase.acquire = .ok text ∧ w = w' := by
  unfold confirmed at h
  split at h
  · rename_i typed
    obtain ⟨again, _, hask, h⟩ := yields_bind.mp h
    obtain ⟨-, rfl⟩ := yields_ask.mp hask
    obtain ⟨rfl, rfl⟩ := yields_pure.mp h
    obtain ⟨first, hfirst, hagain⟩ := bind_eq_ok_iff.mp hacquire
    obtain ⟨second, -, hsame⟩ := bind_eq_ok_iff.mp hagain
    split at hsame
    · obtain rfl := Except.ok.inj hsame
      exact ⟨hfirst, rfl⟩
    · cases hsame
  · obtain ⟨rfl, rfl⟩ := yields_pure.mp h
    exact ⟨hacquire, rfl⟩

/-- Drawing and printing leave passphrases alone. -/
theorem Workspace.passphrase_drawn (w : Workspace) (source : RandomSource) (printed : List String)
    (path : String) (option : PassphraseOption) :
    { w with source, printed }.passphrase path option = w.passphrase path option := by
  cases option with
  | prompt => rfl
  | «variable» name => rfl
  | file passphrase =>
      have hload : { w with source, printed }.load? passphrase = w.load? passphrase :=
        @Workspace.load?_congr w { w with source, printed } rfl rfl _
      exact congrArg (Passphrase.file passphrase) hload

/-- A key that was generated into a file is found there, unless the passphrase no longer stands
where it stood. -/
theorem signingKey_of_generateKey {path : String} {kind : KeyKind} {option : PassphraseOption}
    (hnew : ∀ bits s key s', Yields (w.newRsa bits) s key s' → key.isValid = true)
    (h : Yields (generateKey path kind option : InMemory Unit) w () w')
    (hkeeps : w'.passphrase path option = w.passphrase path option) :
    ∃ k, Obtained k ∧ Yields (signingKey option path : InMemory SigningKey) w' k w' := by
  obtain ⟨_, _, hstatus, h⟩ := yields_bind.mp h
  obtain rfl := yields_status.mp hstatus
  obtain ⟨newRsa, _, hnewRsa, h⟩ := yields_bind.mp h
  obtain ⟨rfl, rfl⟩ := yields_newRsa.mp hnewRsa
  obtain ⟨k, _, hdraw, h⟩ := yields_bind.mp h
  obtain ⟨s₁, hkey, rfl⟩ := yields_draw.mp hdraw
  obtain ⟨source, _, hsource, h⟩ := yields_bind.mp h
  obtain ⟨hstands, rfl⟩ := yields_passphraseSource.mp hsource
  obtain ⟨source', _, hconfirmed, h⟩ := yields_bind.mp h
  obtain ⟨passphrase, _, hattempt, h⟩ := yields_bind.mp h
  obtain ⟨hconfirm, rfl⟩ := yields_attempt.mp hattempt
  obtain ⟨hacquire, rfl⟩ := acquire_of_confirmed hconfirmed hconfirm
  obtain ⟨text, _, hdraw, h⟩ := yields_bind.mp h
  obtain ⟨s₂, hpem, rfl⟩ := yields_draw.mp hdraw
  obtain ⟨written, w₁, hstore, h⟩ := yields_bind.mp h
  obtain ⟨hwritten, hsame⟩ := yields_attempt.mp h
  have hobtained : Obtained k := .generated hnew hkey
  have hload : w'.load? path = some (Bytes.ofText text) := by
    rw [Yields, store_run] at hstore
    split at hstore
    · rename_i hstore'
      cases hstore
      exact hsame ▸ Workspace.load?_of_store? hstore'
    · cases hstore
      cases hwritten
  have hstands' : w'.passphrase path option = source :=
    hkeeps.trans ((w.passphrase_drawn _ _ path option).symm.trans hstands)
  exact ⟨k, hobtained, yields_signingKey.mpr ⟨⟨_, hload,
    Key.parse_of_yields_toPem hobtained.wellFormed hpem fun _ => hstands' ▸ hacquire⟩,
    rfl⟩⟩

end Command

end Firmware
