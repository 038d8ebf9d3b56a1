import BlockScript.Native.Conditionals
import BlockScript.Native.Evaluation
import BlockScript.Native.Exits
import BlockScript.Native.Loops
import BlockScript.Native.Operators
import BlockScript.Native.Protecting
import BlockScript.Native.Raising
import BlockScript.Native.SeriesAccess
import BlockScript.Native.Words

/-!
# What each native does
-/

namespace BlockScript

def Native.run (ev : Evaluator) (args : Args) : Native → EvalM Value
  | .breakLoop => Exits.breakLoop args
  | .continueLoop => Exits.continueLoop
  | .returnValue => Exits.returnValue args
  | .exitFunction => Exits.exitFunction args
  | .quit => Exits.quit args
  | .throwValue => Exits.throwValue args
  | .catchThrown => Exits.catchThrown ev args
  | .trap => Raising.trap ev args
  | .attempt => Raising.attempt ev args
  | .fail => Raising.fail ev args
  | .protect => Protecting.protect ev args
  | .unprotect => Protecting.unprotect ev args
  | .allOf => Conditionals.allOf ev args
  | .anyOf => Conditionals.anyOf ev args
  | .caseOf => Conditionals.caseOf ev args
  | .switchOn => Conditionals.switchOn ev args
  | .ifTrue => Conditionals.ifTrue ev args
  | .either => Conditionals.either ev args
  | .ifFalse => Conditionals.ifFalse ev args
  | .loopTimes => Loops.loopTimes ev args
  | .whileTrue => Loops.whileTrue ev args
  | .forever => Loops.forever ev args
  | .doValue => Evaluation.doValue ev args
  | .reduce => Evaluation.reduce ev args
  | .also => Evaluation.also args
  | .comment => Evaluation.comment
  | .func => Evaluation.func args
  | .does => Evaluation.does args
  | .object => Evaluation.object ev args
  | .context => Evaluation.object ev args
  | .append => SeriesAccess.append args
  | .insert => SeriesAccess.insert args
  | .poke => SeriesAccess.poke args
  | .clear => SeriesAccess.clear args
  | .first => SeriesAccess.first args
  | .pick => SeriesAccess.pick args
  | .lengthOf => SeriesAccess.lengthOf args
  | .copy => SeriesAccess.copy args
  | .wordsOf => SeriesAccess.wordsOf args
  | .operator op => Operators.run op args
  | .negation => Operators.negation args
  | .set => Words.set args
  | .get => Words.get args
  | .hasValue => Words.hasValue args
  | .form => Words.form args
  | .mold => Words.mold args
  | .print => Words.printLine ev args
  | .typeOf => Words.typeOf args
  | .isNone => Words.isNone args
  | .isUnset => Words.isUnset args
  | .isError => Words.isError args

end BlockScript
