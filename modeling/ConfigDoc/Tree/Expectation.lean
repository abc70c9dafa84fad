import ConfigDoc.Error
import ConfigDoc.Token.Basic

namespace ConfigDoc.Tree

inductive Expectation where
  | statement
  | assignment (key : String)
  | lineBreak
  | value
  | itemEnd
  | mapKey
  | mapColon
  | memberEnd
  | leftPipe
  | oneDirection
  | call
  | callName
  | argumentEnd (name : String)
  | plainArgument
  deriving DecidableEq

namespace Expectation

def context : Expectation → String
  | statement => "Expected a key or a directive"
  | assignment key => "Expected '=' or '\x7b' after key '" ++ key ++ "'"
  | lineBreak => "Expected a line break after statement"
  | value => "Expected a value"
  | itemEnd => "Expected ',' or ']' in array"
  | mapKey => "Expected a quoted key in map"
  | mapColon => "Expected Colon"
  | memberEnd => "Expected ',' or '\x7d' in map"
  | leftPipe => "Expected '<|' after directive in value position"
  | oneDirection => "Cannot pipe a value in both directions"
  | call => "Expected At"
  | callName => "Expected directive name after '@'"
  | argumentEnd name => "Expected ',' or ')' in arguments of @" ++ name
  | plainArgument => "Directive arguments cannot be piped"

def hint : Expectation → String
  | statement => "Block statements are `key = value`, `key \x7b ... \x7d` or `@directive`"
  | assignment _ => "Assign with `key = value` or open a sub-block with `key \x7b`"
  | lineBreak => "Each key/value pair and sub-block must end with a line break"
  | value => "Values are strings, numbers, booleans, arrays or maps"
  | itemEnd => "Separate array items with commas"
  | mapKey => "Map keys are quoted strings, e.g. \x7b \"key\": 1 \x7d"
  | mapColon => "Maps use ':' between keys and values"
  | memberEnd => "Separate map entries with commas"
  | leftPipe => "Pipe a value into the directive, e.g. `@double <| 4`"
  | oneDirection => "Use either `value |> @a` or `@a <| value`, not both"
  | call => "Directives start with '@'"
  | callName => "Directive names are identifiers, e.g. `@env`"
  | argumentEnd _ => "Separate directive arguments with commas"
  | plainArgument => "Pipe the value into the directive instead, e.g. `value |> @a |> @b`"

def code : Expectation → Nat
  | statement => 205
  | assignment _ => 207
  | lineBreak => 208
  | itemEnd => 209
  | value => 210
  | mapKey => 211
  | mapColon => 211
  | memberEnd => 212
  | leftPipe => 213
  | oneDirection => 214
  | call => 215
  | callName => 216
  | argumentEnd _ => 217
  | plainArgument => 218

end Expectation

inductive Fault where
  | unexpected (expected : Expectation) (got : Token)
  | unclosedBlock
  /-- No step was left; reading a list of tokens never needs more steps than it is given. -/
  | endOfInput
  deriving DecidableEq

namespace Fault

def message : Fault → String
  | unexpected expected got => expected.context ++ ", got " ++ got.describe
  | unclosedBlock => "Unexpected end of input inside block"
  | endOfInput => "Unexpected end of input"

def hint? : Fault → Option String
  | unexpected expected _ => some expected.hint
  | unclosedBlock => some "Close the block with '\x7d'"
  | endOfInput => none

def code : Fault → Nat
  | unexpected expected _ => expected.code
  | unclosedBlock => 206
  | endOfInput => 201

end Fault

end ConfigDoc.Tree
