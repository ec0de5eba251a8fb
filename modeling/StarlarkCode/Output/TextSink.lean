/-!
# Text sinks

What printed text is collected in. A sink takes texts, line breaks and spaces and holds the text
collected so far; that it only ever adds at the end is `LawfulTextSink`. A plain `String` is a sink.
-/

namespace StarlarkCode

/-- A collector of text. -/
class TextSink (σ : Type) where
  /-- The text collected so far. -/
  text : σ → String
  /-- Adds a text. -/
  write : σ → String → σ
  /-- Adds a line break. -/
  newline : σ → σ := fun out => write out "\n"
  /-- Adds a space. -/
  space : σ → σ := fun out => write out " "

/-- A sink that keeps what it holds and adds at the end. -/
class LawfulTextSink (σ : Type) [TextSink σ] : Prop where
  text_write : ∀ (out : σ) (s : String),
    TextSink.text (TextSink.write out s) = TextSink.text out ++ s
  text_newline : ∀ out : σ, TextSink.text (TextSink.newline out) = TextSink.text out ++ "\n"
  text_space : ∀ out : σ, TextSink.text (TextSink.space out) = TextSink.text out ++ " "

instance : TextSink String where
  text out := out
  write out s := out ++ s

instance : LawfulTextSink String where
  text_write _ _ := rfl
  text_newline _ := rfl
  text_space _ := rfl

end StarlarkCode
